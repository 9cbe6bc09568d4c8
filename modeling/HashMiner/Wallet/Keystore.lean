import HashMiner.Foundation.Machine
import HashMiner.Types
import Mathlib.Logic.Function.Basic

/-!
# Keystore files

The package that encrypts a key writes the file itself: under the name it is given, else
under an identifier that it draws. It returns the identifier in both cases, and the
caller joins that to the directory.
-/

namespace HashMiner.Wallet

open Foundation

/-- The contents of a keystore file, without the file. -/
structure Package where
  encrypt : List Byte → String → List Byte → List Byte
  decrypt : List Byte → String → Except String (List Byte)

/-- A file opens under the password that it was written with, and a part of a file under
none. -/
structure StandardPackage (pkg : Package) : Prop where
  opens : ∀ key password random, pkg.decrypt (pkg.encrypt key password random) password = .ok key
  torn : ∀ key password random n password', n < (pkg.encrypt key password random).length →
    ∃ e, pkg.decrypt ((pkg.encrypt key password random).take n) password' = .error e

/-- How a path is built, and the file that it leads to. -/
structure Paths (Path File : Type) where
  join : Path → String → Path
  locate : Path → File

abbrev Files (File : Type) := File → Option (List Byte)

inductive Write where
  | done
  | refused (error : String)
  | torn (error : String) (n : Nat)

/-- A write that breaks off leaves a proper part of `length` bytes. -/
def Write.Partial (length : Nat) : Write → Prop
  | .torn _ n => n < length
  | _ => True

instance decidablePartial (length : Nat) : (w : Write) → Decidable (w.Partial length)
  | .torn _ n => inferInstanceAs (Decidable (n < length))
  | .done | .refused _ => isTrue trivial

/-- What the system answers, and what is drawn at random. -/
structure CreateCalls where
  createDirAll : Option String
  uuid : String
  random : List Byte
  write : Write

variable {Path File : Type} (pkg : Package) (paths : Paths Path File)

def unlock (files : Files File) (path : Path) (password : String) : Except MinerError B256 :=
  match files (paths.locate path) with
  | none => .error (.keystore "IO: No such file or directory (os error 2)")
  | some contents =>
    match pkg.decrypt contents password with
    | .error e => .error (.keystore e)
    | .ok bytes =>
      if h : bytes.length = 32 then .ok ⟨bytes.toArray, h⟩
      else .error (.keystore ("decrypted key wrong size: " ++ toString bytes.length))

section Opens

variable {pkg paths} {files : Files File} {path : Path} {key : B256} {password : String}

theorem unlock_written {random : List Byte} (standard : StandardPackage pkg)
    (written : files (paths.locate path) = some (pkg.encrypt key.toList password random)) :
    unlock pkg paths files path password = .ok key := by
  simp only [unlock, written, standard.opens]
  rw [dif_pos key.length_toList]
  rfl

theorem unlock_torn {random : List Byte} {n : Nat} {password' : String}
    (standard : StandardPackage pkg) (part : n < (pkg.encrypt key.toList password random).length)
    (torn : files (paths.locate path) = some ((pkg.encrypt key.toList password random).take n))
    (key' : B256) : unlock pkg paths files path password' ≠ .ok key' := by
  obtain ⟨e, failed⟩ := standard.torn key.toList password random n password' part
  simp [unlock, torn, failed]

theorem unlock_absent (absent : files (paths.locate path) = none) :
    unlock pkg paths files path password ≠ .ok key := by
  simp [unlock, absent]

end Opens

variable [DecidableEq File]

def encryptKey (files : Files File) (dir : Path) (key : B256) (password : String)
    (name : Option String) (calls : CreateCalls) : Except String String × Files File :=
  let file := paths.locate (paths.join dir (name.getD calls.uuid))
  let contents := pkg.encrypt key.toList password calls.random
  match calls.write with
  | .done => (.ok calls.uuid, Function.update files file (some contents))
  | .refused e => (.error e, files)
  | .torn e n => (.error e, Function.update files file (some (contents.take n)))

def createKeystore (files : Files File) (dir : Path) (key : B256) (password : String)
    (name : Option String) (calls : CreateCalls) : Except MinerError Path × Files File :=
  match calls.createDirAll with
  | some e => (.error (.io e), files)
  | none =>
    match encryptKey pkg paths files dir key password name calls with
    | (.error e, files) => (.error (.keystore e), files)
    | (.ok filename, files) => (.ok (paths.join dir filename), files)

theorem unlock_update_of_ne {pkg : Package} {paths : Paths Path File} {files : Files File}
    {path : Path} {password : String} {file : File} {contents : Option (List Byte)}
    (other : paths.locate path ≠ file) :
    unlock pkg paths (Function.update files file contents) path password =
      unlock pkg paths files path password := by
  rw [unlock, Function.update_of_ne other]
  rfl

/-- A call of `createKeystore`. -/
structure Creation (Path : Type) where
  dir : Path
  key : B256
  password : String
  name : Option String
  calls : CreateCalls

/-- What a call that has returned a path promises. -/
structure Import (Path : Type) where
  path : Path
  key : B256
  password : String

structure Vault (Path File : Type) where
  files : Files File
  imported : List (Import Path)

namespace Creation

def returned (c : Creation Path) : Path := paths.join c.dir c.calls.uuid

def target (c : Creation Path) : File := paths.locate (paths.join c.dir (c.name.getD c.calls.uuid))

def contents (c : Creation Path) : List Byte := pkg.encrypt c.key.toList c.password c.calls.random

end Creation

namespace Vault

/-- The identifier is a new one: no file, no path that was returned and no name is the
same as the path of it. -/
structure Possible (v : Vault Path File) (c : Creation Path) : Prop where
  absent : v.files (paths.locate (c.returned paths)) = none
  unused : ∀ i ∈ v.imported, paths.locate i.path ≠ paths.locate (c.returned paths)
  unnamed : c.name.map (fun name => paths.locate (paths.join c.dir name)) ≠
    some (paths.locate (c.returned paths))
  part : c.calls.write.Partial (c.contents pkg).length

instance decidablePossible (v : Vault Path File) (c : Creation Path) :
    Decidable (Possible pkg paths v c) :=
  decidable_of_iff (v.files (paths.locate (c.returned paths)) = none ∧
    (∀ i ∈ v.imported, paths.locate i.path ≠ paths.locate (c.returned paths)) ∧
    c.name.map (fun name => paths.locate (paths.join c.dir name)) ≠
      some (paths.locate (c.returned paths)) ∧
    c.calls.write.Partial (c.contents pkg).length)
    ⟨fun ⟨absent, unused, unnamed, part⟩ => ⟨absent, unused, unnamed, part⟩,
      fun ⟨absent, unused, unnamed, part⟩ => ⟨absent, unused, unnamed, part⟩⟩

def step (v : Vault Path File) (c : Creation Path) : Option (Vault Path File) :=
  if Possible pkg paths v c then
    match createKeystore pkg paths v.files c.dir c.key c.password c.name c.calls with
    | (.ok path, files) => some ⟨files, ⟨path, c.key, c.password⟩ :: v.imported⟩
    | (.error _, files) => some { v with files }
  else none

def machine : Machine (Vault Path File) (Creation Path) := ⟨step pkg paths⟩

/-- Every path that a call has returned still opens to the key of that call. -/
def Intact (v : Vault Path File) : Prop :=
  ∀ i ∈ v.imported, unlock pkg paths v.files i.path i.password = .ok i.key

/-- A call that succeeds is given no name, and a write that breaks off is to no path that
an earlier call has returned. -/
def Spares (v : Vault Path File) (c : Creation Path) : Prop :=
  match c.calls.createDirAll, c.calls.write with
  | none, .done => c.name = none
  | none, .torn _ _ => ∀ i ∈ v.imported, paths.locate i.path ≠ c.target paths
  | _, _ => True

variable {pkg paths} {v w : Vault Path File} {c : Creation Path}

/-- The steps by name. -/
inductive Moves (pkg : Package) (paths : Paths Path File) (v : Vault Path File)
    (c : Creation Path) : Vault Path File → Prop
  | noDir (e : String) : c.calls.createDirAll = some e → Moves pkg paths v c v
  | refused (e : String) : c.calls.createDirAll = none → c.calls.write = .refused e →
      Moves pkg paths v c v
  | torn (e : String) (n : Nat) : c.calls.createDirAll = none → c.calls.write = .torn e n →
      n < (c.contents pkg).length →
      Moves pkg paths v c { v with
        files := Function.update v.files (c.target paths) (some ((c.contents pkg).take n)) }
  | written : c.calls.createDirAll = none → c.calls.write = .done →
      Moves pkg paths v c
        ⟨Function.update v.files (c.target paths) (some (c.contents pkg)),
          ⟨c.returned paths, c.key, c.password⟩ :: v.imported⟩

theorem step_cases (taken : step pkg paths v c = some w) :
    Possible pkg paths v c ∧ Moves pkg paths v c w := by
  unfold step at taken
  split at taken
  · next possible =>
    refine ⟨possible, ?_⟩
    have part := possible.part
    cases dir : c.calls.createDirAll with
    | some e =>
      simp only [createKeystore, dir] at taken
      cases taken
      exact .noDir e dir
    | none =>
      cases write : c.calls.write with
      | done =>
        simp only [createKeystore, encryptKey, dir, write] at taken
        cases taken
        exact .written dir write
      | refused e =>
        simp only [createKeystore, encryptKey, dir, write] at taken
        cases taken
        exact .refused e dir write
      | torn e n =>
        simp only [createKeystore, encryptKey, dir, write] at taken
        cases taken
        rw [write] at part
        exact .torn e n dir write part
  · cases taken

/-- What one call does to the promises of the earlier ones, and its own. -/
theorem Intact.step_iff (standard : StandardPackage pkg) (intact : Intact pkg paths v)
    (taken : step pkg paths v c = some w) : Intact pkg paths w ↔ Spares paths v c := by
  obtain ⟨possible, moves⟩ := step_cases taken
  cases moves with
  | noDir e dir =>
    rw [Spares, dir]
    exact iff_of_true intact trivial
  | refused e dir write =>
    rw [Spares, dir, write]
    exact iff_of_true intact trivial
  | torn e n dir write part =>
    rw [Spares, dir, write]
    constructor
    · intro kept i member same
      refine unlock_torn standard part ?_ i.key (kept i member)
      rw [same]
      exact Function.update_self ..
    · intro spared i member
      rw [unlock_update_of_ne (spared i member)]
      exact intact i member
  | written dir write =>
    rw [Spares, dir, write]
    constructor
    · intro kept
      cases named : c.name with
      | none => rfl
      | some name =>
        have apart := possible.unnamed
        rw [named, Option.map_some] at apart
        have other : paths.locate (c.returned paths) ≠ c.target paths := by
          intro same
          rw [Creation.target, named, Option.getD_some] at same
          exact apart (congrArg some same.symm)
        have opened := kept _ List.mem_cons_self
        rw [unlock_update_of_ne other] at opened
        exact absurd opened (unlock_absent possible.absent)
    · intro unnamed i member
      have target : c.target paths = paths.locate (c.returned paths) := by
        rw [Creation.target, unnamed]
        rfl
      rw [target]
      rcases List.mem_cons.mp member with rfl | earlier
      · exact unlock_written standard (Function.update_self ..)
      · rw [unlock_update_of_ne (possible.unused i earlier)]
        exact intact i earlier

/-- Along every sequence of calls, all returned paths open to their keys exactly as long
as the calls spare them. -/
theorem along_intact_iff_spares (pkg : Package) (standard : StandardPackage pkg)
    (paths : Paths Path File) (files : Files File) (calls : List (Creation Path)) :
    (machine pkg paths).Along (fun _ _ w => Intact pkg paths w) ⟨files, []⟩ calls ↔
      (machine pkg paths).Along (fun v c _ => Spares paths v c) ⟨files, []⟩ calls := by
  have start : Intact pkg paths ⟨files, []⟩ := by
    intro i member
    cases member
  have sound : ∀ (v : Vault Path File) (c : Creation Path) (w : Vault Path File),
      Intact pkg paths v → (machine pkg paths).step v c = some w →
      (Intact pkg paths w ↔ Spares paths v c) ∧ (Intact pkg paths w → Intact pkg paths w) :=
    fun v c w intact taken => ⟨intact.step_iff standard taken, id⟩
  exact Machine.along_iff sound start calls

end Vault

section Layout

/-- A file of which no part is a file: each byte follows a mark. -/
def marked (body : List Byte) : List Byte := body.foldr (fun b rest => 1 :: b :: rest) [0]

def unmarked : List Byte → Option (List Byte)
  | [0] => some []
  | 1 :: b :: rest => (unmarked rest).map (b :: ·)
  | _ => none

theorem unmarked_marked (body : List Byte) : unmarked (marked body) = some body := by
  induction body with
  | nil => rfl
  | cons b body ih =>
    change (unmarked (marked body)).map (b :: ·) = _
    rw [ih]
    rfl

theorem unmarked_take (body : List Byte) (n : Nat) (part : n < (marked body).length) :
    unmarked ((marked body).take n) = none := by
  induction body generalizing n with
  | nil =>
    have empty : n = 0 := Nat.lt_one_iff.mp part
    rw [empty]
    rfl
  | cons b body ih =>
    match n with
    | 0 | 1 => rfl
    | n + 2 =>
      have shorter : n < (marked body).length :=
        Nat.lt_of_succ_lt_succ (Nat.lt_of_succ_lt_succ part)
      change (unmarked ((marked body).take n)).map (b :: ·) = none
      rw [ih n shorter]
      rfl

def passwordBytes (password : String) : List Byte :=
  password.toList.flatMap fun c => beBytes 4 c.toNat

/-- A package without a cipher: the file is the password and the key. -/
def layoutPackage : Package where
  encrypt key password _ := marked (passwordBytes password ++ key)
  decrypt contents password :=
    match unmarked contents with
    | none => .error "EOF while parsing an object"
    | some body =>
      if body.take (passwordBytes password).length = passwordBytes password then
        .ok (body.drop (passwordBytes password).length)
      else .error "Mac Mismatch"

theorem standard_layoutPackage : StandardPackage layoutPackage where
  opens key password _ := by
    simp [layoutPackage, unmarked_marked]
  torn key password _ n password' part := by
    refine ⟨"EOF while parsing an object", ?_⟩
    have cut := unmarked_take _ n part
    simp only [layoutPackage, cut]

def layoutPaths : Paths (List String) (List String) := ⟨fun dir name => dir ++ [name], id⟩

def layoutCreation (name : Option String) : Creation (List String) :=
  ⟨["keystore"], Vector.replicate 32 0x42, "pw", name, ⟨none, "7e1d", [], .done⟩⟩

/-- Another key into the same directory. -/
def laterCreation (uuid : String) (write : Write) : Creation (List String) :=
  ⟨["keystore"], Vector.replicate 32 0x43, "later", none, ⟨none, uuid, [], write⟩⟩

namespace Vault

/-- Two imports without a name, as the program's test makes them, and between them one whose
write breaks off. -/
def layoutImports : List (Creation (List String)) :=
  [layoutCreation none, laterCreation "91c0" (.torn "No space left on device (os error 28)" 5),
    laterCreation "c3f2" .done]

theorem along_intact_unnamed :
    ((machine layoutPackage layoutPaths).run ⟨fun _ => none, []⟩ layoutImports).map
        (fun v => v.imported.map (·.path)) =
      some [["keystore", "c3f2"], ["keystore", "7e1d"]] ∧
    (machine layoutPackage layoutPaths).Along (fun _ _ w => Intact layoutPackage layoutPaths w)
      ⟨fun _ => none, []⟩ layoutImports := by
  refine ⟨rfl, (along_intact_iff_spares layoutPackage standard_layoutPackage layoutPaths
    _ _).mpr ?_⟩
  refine (Machine.along_cons rfl).mpr ⟨rfl, ?_⟩
  refine (Machine.along_cons rfl).mpr ⟨?_, fun _ _ => ⟨rfl, trivial⟩⟩
  intro i member
  cases List.mem_singleton.mp member
  decide

/-- One import with a name: the path that it returns is no file. -/
theorem named_keystore_lost :
    ¬ (machine layoutPackage layoutPaths).Along
      (fun _ _ w => Intact layoutPackage layoutPaths w)
      ⟨fun _ => none, []⟩ [layoutCreation (some "miner.json")] := by
  intro along
  have taken : (machine layoutPackage layoutPaths).step ⟨fun _ => none, []⟩
      (layoutCreation (some "miner.json")) = some _ := rfl
  have intact := (along _ taken).1
  have opened := intact _ List.mem_cons_self
  cases opened

end Vault

end Layout

end HashMiner.Wallet
