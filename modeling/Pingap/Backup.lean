import Pingap.ConfigVersions
import Pingap.Utf8

/-!
# Backup bundles

A bundle is a directory with a configuration, a copy of the store and a manifest with their
checksums. The configuration is the one that is stored, and what the manifest leaves out is
restored unchecked.
-/

namespace Backup

open ConfigIntent ConfigApply ConfigVersions List Utf8

/-- What reading each path of a directory gives. -/
abbrev Dir := String → Except String Bytes

def Dir.write (d : Dir) (path : String) (bytes : Bytes) : Dir := fun p =>
  if p = path then .ok bytes else d p

def BUNDLE_FORMAT_VERSION : Nat := 1

structure BundleManifest where
  formatVersion : Nat
  productVersion : String
  intentSchemaVersion : Nat
  configVersion : Option String
  createdAt : Int
  encrypted : Bool
  files : List (String × String)

inductive BackupError where
  | io (source : String)
  | format (message : String)

/-- The digest as text, the JSON of a manifest, and whether a path can be written. -/
structure Tools where
  sha256 : Bytes → String
  encode : BundleManifest → Except String Bytes
  decode : Bytes → Except String BundleManifest
  writable : String → Except String Unit

variable (t : Tools)

def sha256File (root : Dir) (path : String) : Except BackupError String :=
  ((root path).map t.sha256).mapError .io

def verifyBundleChecksums (root : Dir) : List (String × String) → Except BackupError Unit
  | [] => .ok ()
  | (relative, expected) :: rest => do
    let actual ← sha256File t root relative
    if actual ≠ expected then .error (.format ("checksum mismatch for " ++ relative)) else
      verifyBundleChecksums root rest

def readManifest (root : Dir) : Except BackupError BundleManifest := do
  let bytes ← (root "manifest.json").mapError .io
  (t.decode bytes).mapError .format

def validateBundle (root : Dir) : Except BackupError BundleManifest := do
  let manifest ← readManifest t root
  if manifest.formatVersion ≠ BUNDLE_FORMAT_VERSION then
    .error (.format ("unsupported bundle format version " ++ toString manifest.formatVersion))
  else if manifest.encrypted then
    .error (.format "bundle is marked encrypted but no decryptor is configured")
  else
    verifyBundleChecksums t root manifest.files
    return manifest

/-- Files copied one after the other, up to the first that fails. -/
def copy (root : Dir) : List String → Dir → Except BackupError Unit × Dir
  | [], d => (.ok (), d)
  | path :: rest, d =>
    match (root path).bind fun bytes => (t.writable path).map fun _ => bytes with
    | .error source => (.error (.io source), d)
    | .ok bytes => copy root rest (d.write path bytes)

def payload : List String := ["config.toml", "store.sqlite"]

/-- Restores a bundle, with what the staging directory has afterwards. -/
def restoreBundle (root staging : Dir) : Except BackupError BundleManifest × Dir :=
  match validateBundle t root with
  | .error e => (.error e, staging)
  | .ok manifest =>
    match t.writable "" with
    | .error source => (.error (.io source), staging)
    | .ok () =>
      match copy t root payload staging with
      | (.error e, staging) => (.error e, staging)
      | (.ok (), staging) => (.ok manifest, staging)

variable {t}

theorem copy_eq (h : copy t root paths d = (.ok (), d')) (name : String) :
    d' name = if name ∈ paths then root name else d name := by
  induction paths generalizing d with
  | nil =>
    cases h
    rfl
  | cons path rest ih =>
    unfold copy at h
    split at h
    · cases h
    rename_i bytes hbytes
    have hread : root path = .ok bytes := by
      cases hread : root path <;> cases hwrite : t.writable path <;>
        simp_all [Except.bind, Except.map]
    rw [ih h]
    by_cases hname : name = path <;> simp [Dir.write, hname, hread]

theorem checked_of_mem (h : verifyBundleChecksums t root files = .ok ())
    (hmem : (relative, expected) ∈ files) : (root relative).map t.sha256 = .ok expected := by
  induction files with
  | nil => cases hmem
  | cons row rest ih =>
    unfold verifyBundleChecksums sha256File at h
    cases hread : (root row.1).map t.sha256 with
    | error source => simp [hread, bind, Except.bind, Except.mapError] at h
    | ok actual =>
      simp only [hread, bind, Except.bind, Except.mapError, ne_eq, ite_not] at h
      split at h
      · rename_i hsame
        rcases mem_cons.mp hmem with rfl | hmem
        · exact hread.trans (congrArg _ hsame)
        · exact ih h hmem
      · cases h

/-- A bundle that passes has the manifest it says, and the files the manifest lists. -/
theorem checked_of_validateBundle (h : validateBundle t root = .ok m) :
    readManifest t root = .ok m ∧ verifyBundleChecksums t root m.files = .ok () := by
  unfold validateBundle at h
  cases hread : readManifest t root with
  | error e => simp [hread, bind, Except.bind] at h
  | ok manifest =>
    simp only [hread, bind, Except.bind] at h
    split at h
    · cases h
    split at h
    · cases h
    cases hfiles : verifyBundleChecksums t root manifest.files with
    | error e => simp [hfiles] at h
    | ok =>
      simp only [hfiles] at h
      cases h
      exact ⟨rfl, hfiles⟩

/-- A bundle that fails its validation leaves the staging directory alone. What a successful restore
stages has the digests of its manifest exactly when the manifest lists both files. -/
theorem staged_is_verified_iff (t : Tools) (root staging : Dir) :
    (∀ e, validateBundle t root = .error e → restoreBundle t root staging = (.error e, staging)) ∧
    ∀ m r after, readManifest t root = .ok m → restoreBundle t root staging = (.ok r, after) →
      (∀ name, after name = if name ∈ payload then root name else staging name) ∧
      ((∀ name ∈ payload, ∃ digest, (name, digest) ∈ m.files ∧
          (after name).map t.sha256 = .ok digest) ↔
        ∀ name ∈ payload, name ∈ m.files.map Prod.fst) := by
  refine ⟨fun e he => by simp only [restoreBundle, he], fun m r after hread h => ?_⟩
  unfold restoreBundle at h
  split at h
  · cases h
  rename_i hvalid
  split at h
  · cases h
  split at h
  · cases h
  rename_i hcopied
  cases h
  obtain ⟨hread', hfiles⟩ := checked_of_validateBundle hvalid
  obtain rfl := Except.ok.inj (hread'.symm.trans hread)
  have hstaged := copy_eq hcopied
  refine ⟨hstaged, fun hverified name hname => ?_, fun hlisted name hname => ?_⟩
  · obtain ⟨digest, hmem, -⟩ := hverified name hname
    exact mem_map_of_mem hmem
  obtain ⟨⟨_, digest⟩, hmem, rfl⟩ := mem_map.mp (hlisted name hname)
  exact ⟨digest, hmem, by rw [hstaged, if_pos hname, checked_of_mem hfiles hmem]⟩

/-- Tools for which each manifest lists these files. -/
def listing (files : List (String × String)) : Tools where
  sha256 bytes := toString bytes
  encode _ := .ok []
  decode _ := .ok ⟨1, "0.13.0", 1, none, 0, false, files⟩
  writable _ := .ok ()

theorem staged_is_verified_iff_listed :
    let t := listing [("config.toml", "[7]"), ("store.sqlite", "[7]")]
    ∃ m after, restoreBundle t (fun _ => .ok [7]) (fun _ => .error "absent") = (.ok m, after) ∧
      ∀ name ∈ payload, ∃ digest, (name, digest) ∈ m.files ∧
        (after name).map t.sha256 = .ok digest := by
  intro t
  have hstaged := (staged_is_verified_iff t (fun _ => .ok [7]) fun _ => .error "absent").2
  refine ⟨_, _, rfl, (hstaged _ _ _ rfl rfl).2.mpr ?_⟩
  decide

/-- The configuration is staged, and nothing was compared with it. -/
theorem unlisted_is_staged :
    ∃ m after, restoreBundle (listing []) (fun _ => .ok [7]) (fun _ => .error "absent") =
        (.ok m, after) ∧
      after "config.toml" = .ok [7] ∧ ∀ digest, ("config.toml", digest) ∉ m.files :=
  ⟨_, _, rfl, rfl, fun _ => not_mem_nil⟩

/-! ## Exporting -/

def exportBundle (t : Tools) (root : Dir) (canonical : String) (snapshot : Except String Bytes)
    (productVersion : String) (intentSchemaVersion : Nat) (configVersion : Option String)
    (createdAt : Int) : Except BackupError (BundleManifest × Dir) := do
  let root := root.write "config.toml" canonical.toUTF8.data.toList
  let root := root.write "store.sqlite" (← snapshot.mapError .io)
  let config ← sha256File t root "config.toml"
  let store ← sha256File t root "store.sqlite"
  let manifest := ⟨BUNDLE_FORMAT_VERSION, productVersion, intentSchemaVersion, configVersion,
    createdAt, false, [("config.toml", config), ("store.sqlite", store)]⟩
  let bytes ← (t.encode manifest).mapError .format
  return (manifest, root.write "manifest.json" bytes)

inductive ApiError where
  | unavailable (reason : String)
  | serialise (error : ProjectionError)
  | bundle (error : BackupError)

/-- The bundle of the `export` route: the configuration comes from storage, the version
from the store of versions, when that can be read. -/
def exportStored (t : Tools) (f : Formats) (root : Dir) (current : Except String PingapConfig)
    (versions : Option Versions) (snapshot : Except String Bytes) (productVersion : String)
    (schema : Nat) (now : Int) : Except ApiError (BundleManifest × Dir) := do
  let current ← current.mapError .unavailable
  let canonical ← (canonicalToml f current).mapError .serialise
  (exportBundle t root canonical snapshot productVersion schema
    ((versions.bind Versions.latestApplied).map ConfigVersion.id) now).mapError .bundle

theorem config_of_exportStored (h : exportStored t f root current versions snapshot p schema now =
    .ok (m, bundle)) :
    m.configVersion = (versions.bind Versions.latestApplied).map ConfigVersion.id ∧
    ∃ stored text, current = .ok stored ∧ canonicalToml f stored = .ok text ∧
      bundle "config.toml" = .ok text.toUTF8.data.toList := by
  unfold exportStored exportBundle at h
  cases current with
  | error reason => cases h
  | ok stored =>
    cases htext : canonicalToml f stored with
    | error e => simp [htext, bind, Except.bind, Except.mapError] at h
    | ok text =>
      simp only [htext, bind, Except.bind, Except.mapError] at h
      split at h
      · cases h
      rename_i hbundle
      cases h
      repeat' split at hbundle
      all_goals cases hbundle
      exact ⟨rfl, stored, text, rfl, htext, rfl⟩

/-- The manifest names the applied version. The configuration of the bundle is what that version
asks for exactly when storage says the same. -/
theorem exported_is_applied_iff (t : Tools) (a : Applier) (root : Dir) (stored : PingapConfig)
    (s : Versions) (snapshot : Except String Bytes) (p : String) (schema : Nat) (now : Int) :
    (∀ m bundle, exportStored t a.formats root (.ok stored) (some s) snapshot p schema now =
      .ok (m, bundle) → m.configVersion = s.latestApplied.map ConfigVersion.id) ∧
    ∀ m bundle v intent projected, exportStored t a.formats root (.ok stored) (some s) snapshot p
        schema now = .ok (m, bundle) → s.latestApplied = some v →
      a.decode v.intentJson = .ok intent → generate a.formats intent = .ok projected →
      (bundle "config.toml" = .ok projected.toml.toUTF8.data.toList ↔
        canonicalToml a.formats stored = .ok projected.toml) := by
  refine ⟨fun m bundle h => (config_of_exportStored h).1, fun m bundle v intent q h _ _ _ => ?_⟩
  obtain ⟨-, _, text, hstored, htext, hbundle⟩ := config_of_exportStored h
  cases hstored
  rw [hbundle, htext, Except.ok.injEq, Except.ok.injEq]
  refine ⟨fun hbytes => ?_, fun hsame => hsame ▸ rfl⟩
  exact String.toByteArray_inj.mp (ByteArray.ext (Array.toList_inj.mp hbytes))

def exportedFrom (stored : PingapConfig) (s : Versions) : Except ApiError (BundleManifest × Dir) :=
  exportStored (listing []) proxyApplier.formats (fun _ => .error "absent") (.ok stored) (some s)
    (.ok []) "0.13.0" 1 0

/-- A version without plugins is applied. -/
def plainVersions : Versions :=
  ⟨[⟨"v1", "h", .applied, none, "root", "none", none, 0, some 0⟩], [], []⟩

theorem exported_is_applied_iff_undrifted :
    ∃ m bundle projected, exportedFrom ⟨none, ∅, ∅, ∅, ∅, ∅⟩ plainVersions = .ok (m, bundle) ∧
      generate proxyApplier.formats Intent.empty = .ok projected ∧
      bundle "config.toml" = .ok projected.toml.toUTF8.data.toList := by
  have hout : exportedFrom ⟨none, ∅, ∅, ∅, ∅, ∅⟩ plainVersions = .ok _ := rfl
  exact ⟨_, _, _, hout, rfl, ((exported_is_applied_iff _ proxyApplier _ _ _ _ _ _ _).2 _ _ _
    Intent.empty _ hout rfl rfl rfl).mpr rfl⟩

/-- An entry was added to storage by hand. -/
theorem edit_is_exported :
    ∃ m bundle v projected,
      exportedFrom ⟨none, ∅, ∅, ∅, AList.ofRows [("waf:edge", [])], ∅⟩ plainVersions =
        .ok (m, bundle) ∧
      plainVersions.latestApplied = some v ∧ m.configVersion = some v.id ∧
      proxyApplier.decode v.intentJson = .ok Intent.empty ∧
      generate proxyApplier.formats Intent.empty = .ok projected ∧
      bundle "config.toml" ≠ .ok projected.toml.toUTF8.data.toList := by
  refine ⟨_, _, _, _, rfl, rfl, rfl, rfl, rfl, ?_⟩
  decide

end Backup
