import HttpFile.Proofs.Document.Extracted
import HttpFile.Proofs.Text.Wide

/-!
# `HttpFile.Proofs.Document.Header` — the case of header keys

The keys of headers are ASCII, where every letter has one capital and one small form. So bringing a
key into the case of a version keeps it a key, is done once and for all, and does not change which
header is meant.

## Contents
- **Letters.** `capitalOf`, `smallOf`, `casedKey`.
- **Keys.** `capitalize`, `headerKey_cases`.
- **Laws.** `isHeaderKey_headerKey`, `headerKey_idem`, `lower_headerKey`.
- **Capitals of any character.** `upperChar_spec`.
- **Keys of any characters.** `headerKey_headerKey`.
-/

namespace HttpFile

open Text Unicode Syntax

/-! ## Letters -/

/-- The capital form of a character, where it is one character. -/
def capitalOf (c : Char) : Char := (upperChar c).headD c

/-- The small form of a character, where it is one character. -/
def smallOf (c : Char) : Char := (lowerChar c).headD c

/-- What the two forms of a character of a header's key are like. -/
structure CasedKey (c : Char) : Prop where
  upper : upperChar c = [capitalOf c]
  lower : lowerChar c = [smallOf c]
  capital : isHeaderKey (capitalOf c) = true
  small : isHeaderKey (smallOf c) = true
  capital_capital : capitalOf (capitalOf c) = capitalOf c
  small_small : smallOf (smallOf c) = smallOf c
  small_capital : smallOf (capitalOf c) = smallOf c
  hyphen : capitalOf c = '-' → c = '-'
  sigma : c ≠ 'Σ'

theorem casedKey {c : Char} (h : isHeaderKey c = true) : CasedKey c := by
  have hall : ∀ c ∈ (List.range 0x7F).map Char.ofNat, isHeaderKey c = true →
      upperChar c = [capitalOf c] ∧ lowerChar c = [smallOf c] ∧ isHeaderKey (capitalOf c) = true ∧
        isHeaderKey (smallOf c) = true ∧ capitalOf (capitalOf c) = capitalOf c ∧
        smallOf (smallOf c) = smallOf c ∧ smallOf (capitalOf c) = smallOf c ∧
        (capitalOf c = '-' → c = '-') ∧ c ≠ 'Σ' := by
    decide +kernel
  have hgraphic := isGraphic_of_isHeaderKey h
  rw [isGraphic, Bool.and_eq_true, decide_eq_true_eq, decide_eq_true_eq] at hgraphic
  have hmem : c ∈ (List.range 0x7F).map Char.ofNat :=
    List.mem_map.mpr ⟨c.toNat, List.mem_range.mpr hgraphic.2, Char.ofNat_toNat c⟩
  obtain ⟨h1, h2, h3, h4, h5, h6, h7, h8, h9⟩ := hall c hmem h
  exact ⟨h1, h2, h3, h4, h5, h6, h7, h8, h9⟩

/-! ## Keys -/

/-- A part of a key with a capital in front. -/
def capitalize : Text → Text
  | [] => []
  | c :: rest => capitalOf c :: rest

theorem capitalized_eq {t : Text} (h : ∀ c ∈ t, isHeaderKey c = true) : capitalized t = capitalize t := by
  cases t with
  | nil => rfl
  | cons c rest =>
      have hc := (casedKey (h c (by simp))).upper
      simp [capitalized, capitalize, upper, hc]

theorem lowerAfter_eq {t : Text} (h : ∀ c ∈ t, isHeaderKey c = true) (before : Text) :
    lowerAfter before t = t.map smallOf := by
  induction t generalizing before with
  | nil => rfl
  | cons c t ih =>
      have hc := casedKey (h c (by simp))
      rw [lowerAfter, if_neg hc.sigma, hc.lower, ih fun d hd => h d (by simp [hd])]
      rfl

theorem lower_eq {t : Text} (h : ∀ c ∈ t, isHeaderKey c = true) : lower t = t.map smallOf :=
  lowerAfter_eq h []

/-- The parts of a key, each with a capital in front. -/
def capitalParts (key : Text) : List Text := (fieldsAt '-' key).map capitalize

theorem isHeaderKey_field {key f : Text} (h : ∀ c ∈ key, isHeaderKey c = true)
    (hf : f ∈ fieldsAt '-' key) : ∀ c ∈ f, isHeaderKey c = true :=
  fun c hc => h c ((infix_of_mem_fieldsAt hf).subset hc)

/-- A key in the case of a version: with capitals, small, or as it is. -/
theorem headerKey_cases {key : Text} (h : ∀ c ∈ key, isHeaderKey c = true) (version : Text) :
    headerKey key version = ['-'].intercalate (capitalParts key) ∨
      headerKey key version = key.map smallOf ∨ headerKey key version = key := by
  unfold headerKey
  split
  · left
    congr 1
    exact List.map_congr_left fun f hf => capitalized_eq (isHeaderKey_field h hf)
  · split
    · exact .inr (.inl (lower_eq h))
    · exact .inr (.inr rfl)

theorem isHeaderKey_capitalize {f : Text} (h : ∀ c ∈ f, isHeaderKey c = true) :
    ∀ c ∈ capitalize f, isHeaderKey c = true := by
  cases f with
  | nil => simp [capitalize]
  | cons d f =>
      intro c hc
      rcases List.mem_cons.mp hc with rfl | hc
      · exact (casedKey (h d (by simp))).capital
      · exact h c (by simp [hc])

theorem hyphen_notMem_capitalize {f : Text} (h : ∀ c ∈ f, isHeaderKey c = true) (hn : '-' ∉ f) :
    '-' ∉ capitalize f := by
  cases f with
  | nil => simp [capitalize]
  | cons d f =>
      intro hm
      rcases List.mem_cons.mp hm with he | hm
      · exact hn (by simp [(casedKey (h d (by simp))).hyphen he.symm])
      · exact hn (by simp [hm])

/-- The parts of a key with capitals are the parts of the key, with capitals. -/
theorem fieldsAt_capital {key : Text} (h : ∀ c ∈ key, isHeaderKey c = true) :
    fieldsAt '-' (['-'].intercalate (capitalParts key)) = capitalParts key := by
  have hn : ∀ f ∈ capitalParts key, '-' ∉ f := by
    intro f hf
    obtain ⟨g, hg, rfl⟩ := List.mem_map.mp hf
    exact hyphen_notMem_capitalize (isHeaderKey_field h hg) (notMem_of_mem_fieldsAt hg)
  cases hparts : capitalParts key with
  | nil => exact absurd (List.map_eq_nil_iff.mp hparts) (fieldsAt_ne_nil '-' key)
  | cons f fs =>
      rw [hparts] at hn
      exact fieldsAt_intercalate hn

/-! ## Laws -/

theorem isHeaderKey_capitals {key : Text} (h : ∀ c ∈ key, isHeaderKey c = true) :
    ∀ c ∈ ['-'].intercalate (capitalParts key), isHeaderKey c = true := by
  intro c hc
  rcases mem_intercalate hc with hc | ⟨f, hf, hc⟩
  · obtain rfl := List.mem_singleton.mp hc
    decide
  · obtain ⟨g, hg, rfl⟩ := List.mem_map.mp hf
    exact isHeaderKey_capitalize (isHeaderKey_field h hg) c hc

/-- Capitals are small letters again when they are made small. -/
theorem small_capitals {key : Text} (h : ∀ c ∈ key, isHeaderKey c = true) :
    (['-'].intercalate (capitalParts key)).map smallOf = key.map smallOf := by
  have hparts : (capitalParts key).map (List.map smallOf) = (fieldsAt '-' key).map (List.map smallOf) := by
    unfold capitalParts
    rw [List.map_map]
    refine List.map_congr_left fun f hf => ?_
    cases f with
    | nil => rfl
    | cons c f =>
        have hc := casedKey (isHeaderKey_field h hf c (by simp))
        simp [capitalize, hc.small_capital]
  -- the hyphen is its own small letter, so it joins the parts before and after
  have hhyphen : ['-'].map smallOf = ['-'] := by decide +kernel
  have hjoined : ∀ parts : List Text,
      (['-'].intercalate parts).map smallOf = ['-'].intercalate (parts.map (List.map smallOf)) := by
    intro parts
    rw [apply_intercalate List.map_nil fun _ _ => List.map_append, hhyphen]
  rw [hjoined, hparts, ← hjoined, join_fieldsAt]

/-- **A key stays a key.** -/
theorem isHeaderKey_headerKey {key : Text} (h : ∀ c ∈ key, isHeaderKey c = true) (version : Text) :
    ∀ c ∈ headerKey key version, isHeaderKey c = true := by
  intro c hc
  rcases headerKey_cases h version with he | he | he
  · rw [he] at hc
    exact isHeaderKey_capitals h c hc
  · rw [he] at hc
    obtain ⟨d, hd, rfl⟩ := List.mem_map.mp hc
    exact (casedKey (h d hd)).small
  · rw [he] at hc
    exact h c hc

/-- **The case of a key does not say which header is meant.** -/
theorem lower_headerKey {key : Text} (h : ∀ c ∈ key, isHeaderKey c = true) (version : Text) :
    lower (headerKey key version) = lower key := by
  rw [lower_eq (isHeaderKey_headerKey h version), lower_eq h]
  rcases headerKey_cases h version with he | he | he
  · rw [he, small_capitals h]
  · rw [he, List.map_map]
    exact List.map_congr_left fun c hc => (casedKey (h c hc)).small_small
  · rw [he]

theorem headerKey_ne_nil {key : Text} (h : ∀ c ∈ key, isHeaderKey c = true) (hne : key ≠ [])
    (version : Text) : headerKey key version ≠ [] := by
  intro he
  have hlower := lower_headerKey h version
  rw [he, lower_eq h] at hlower
  exact hne (List.map_eq_nil_iff.mp hlower.symm)

theorem capitalize_capitalize {f : Text} (h : ∀ c ∈ f, isHeaderKey c = true) :
    capitalize (capitalize f) = capitalize f := by
  cases f with
  | nil => rfl
  | cons c f =>
      have hc := casedKey (h c (by simp))
      simp [capitalize, hc.capital_capital]

/-- **A key is brought into its case once and for all.** -/
theorem headerKey_idem {key : Text} (h : ∀ c ∈ key, isHeaderKey c = true) (version : Text) :
    headerKey (headerKey key version) version = headerKey key version := by
  have hkey := isHeaderKey_headerKey h version
  unfold headerKey at hkey ⊢
  split
  · next hv =>
      rw [if_pos hv] at hkey
      -- in capitals, part by part between the hyphens
      have hcap : (fieldsAt '-' key).map capitalized = capitalParts key :=
        List.map_congr_left fun f hf => capitalized_eq (isHeaderKey_field h hf)
      rw [hcap] at hkey ⊢
      rw [fieldsAt_capital h]
      congr 1
      conv => rhs; rw [← List.map_id (capitalParts key)]
      refine List.map_congr_left fun f hf => ?_
      obtain ⟨g, hg, rfl⟩ := List.mem_map.mp hf
      rw [capitalized_eq (isHeaderKey_capitalize (isHeaderKey_field h hg))]
      exact capitalize_capitalize (isHeaderKey_field h hg)
  · next hv =>
      split
      · next hv' =>
          -- in small letters
          rw [if_neg hv, if_pos hv'] at hkey
          rw [lower_eq hkey, lower_eq h, List.map_map]
          exact List.map_congr_left fun c hc => (casedKey (h c hc)).small_small
      · rfl

end HttpFile

namespace HttpFile.Unicode

/-! ## Capitals of any character -/

/-- A counterpart comes from a run that covers the code point. -/
theorem mapRuns_eq_some {runs : List Run} {n m : Nat} (h : mapRuns runs n = some m) :
    ∃ r ∈ runs, r.covers n = true ∧ m = ((n : Int) + r.shift).toNat := by
  induction runs with
  | nil => simp [mapRuns] at h
  | cons r runs ih =>
      rw [mapRuns] at h
      split at h
      · simp at h
      · split at h
        · next hc => exact ⟨r, by simp, hc, (Option.some.inj h).symm⟩
        · obtain ⟨r', hr', hc, hm⟩ := ih h
          exact ⟨r', by simp [hr'], hc, hm⟩

/-- What a plain character of a capital form is like: it is its own capital form, and it is a hyphen
    for the hyphen only. -/
def PlainCapital (c x : Char) : Prop := x.toNat < 0x80 → upperChar x = [x] ∧ (x = '-' → c = '-')

instance (c x : Char) : Decidable (PlainCapital c x) := inferInstanceAs (Decidable (_ → _))

theorem plainCapital_special : ∀ p ∈ upperSpecial, p.2 ≠ [] ∧
    ∀ n ∈ p.2, PlainCapital (Char.ofNat p.1) (Char.ofNat n) := by
  decide +kernel

/-- Runs that lead to plain characters are short; all others lead to code points past them. -/
theorem plainCapital_runs : ∀ r ∈ upperRuns,
    (0x80 ≤ r.first + r.shift ∧ r.last + r.shift < 0xD800) ∨
    (0xE000 ≤ r.first + r.shift ∧ r.last + r.shift < 0x110000) ∨
    r.last < 0x200 ∧ ∀ n ∈ List.range' r.first (r.last + 1 - r.first),
      PlainCapital (Char.ofNat n) (Char.ofNat ((n : Int) + r.shift).toNat) := by
  decide +kernel

/-- **The plain characters of a capital form are capital already.** -/
theorem upperChar_spec (c : Char) : upperChar c ≠ [] ∧ ∀ x ∈ upperChar c, PlainCapital c x := by
  have hc : Char.ofNat c.toNat = c := Char.ofNat_toNat c
  unfold upperChar mapCase
  cases hs : upperSpecial.lookup c.toNat with
  | some long =>
      obtain ⟨pre, post, htable, -⟩ := List.lookup_eq_some_iff.mp hs
      obtain ⟨hne, hplain⟩ := plainCapital_special (c.toNat, long) (by rw [htable]; simp)
      refine ⟨by simpa using hne, fun x hx => ?_⟩
      obtain ⟨n, hn, rfl⟩ := List.mem_map.mp hx
      exact hc ▸ hplain n hn
  | none =>
      refine ⟨by simp, fun x hx => ?_⟩
      cases hm : mapRuns upperRuns c.toNat with
      | none =>
          have hself : upperChar c = [c] := by simp [upperChar, mapCase, hs, hm]
          obtain rfl : x = c := by simpa [hm] using hx
          exact fun _ => ⟨hself, id⟩
      | some m =>
          obtain rfl : x = Char.ofNat m := by simpa [hm] using hx
          obtain ⟨r, hr, hcover, rfl⟩ := mapRuns_eq_some hm
          obtain ⟨⟨hfirst, hlast⟩, -⟩ : (r.first ≤ c.toNat ∧ c.toNat ≤ r.last) ∧ _ := by
            simpa [Run.covers] using hcover
          -- a run that leads past the plain characters, on either side of the surrogates, or a
          -- short one
          rcases plainCapital_runs r hr with ⟨hlow, hhigh⟩ | ⟨hlow, hhigh⟩ | ⟨-, hplain⟩
          · intro hx
            rw [Text.toNat_ofNat_of_valid (.inl (by omega))] at hx
            omega
          · intro hx
            rw [Text.toNat_ofNat_of_valid (.inr (by omega))] at hx
            omega
          · have := hplain c.toNat (List.mem_range'_1.mpr (by omega))
            rwa [hc] at this

end HttpFile.Unicode

namespace HttpFile

open Text Unicode Syntax

/-! ## Keys of any characters -/

theorem isPlain_of_isHeaderKey {c : Char} (h : isHeaderKey c = true) : c.toNat < 0x80 := by
  have hgraphic := isGraphic_of_isHeaderKey h
  rw [isGraphic, Bool.and_eq_true, decide_eq_true_eq, decide_eq_true_eq] at hgraphic
  omega

theorem hyphen_notMem_capitalized {f : Text} (h : '-' ∉ f) : '-' ∉ capitalized f := by
  cases f with
  | nil => exact h
  | cons c rest =>
      simp only [capitalized, upper, List.flatMap_cons, List.flatMap_nil, List.append_nil, List.mem_append]
      rintro (hmem | hmem)
      · obtain rfl := ((upperChar_spec c).2 '-' hmem (by decide)).2 rfl
        exact h (by simp)
      · exact h (by simp [hmem])

theorem capitalized_capitalized {f : Text} (h : ∀ c ∈ capitalized f, isHeaderKey c = true) :
    capitalized (capitalized f) = capitalized f := by
  cases f with
  | nil => rfl
  | cons c rest =>
      obtain ⟨hne, hplain⟩ := upperChar_spec c
      obtain ⟨u, us, hu⟩ := List.exists_cons_of_ne_nil hne
      have hcap : capitalized (c :: rest) = u :: (us ++ rest) := by simp [capitalized, upper, hu]
      rw [hcap] at h ⊢
      have hself := (hplain u (by simp [hu]) (isPlain_of_isHeaderKey (h u (by simp)))).1
      simp [capitalized, upper, hself]

/-- **A header's key that can be read is written once and for all,** whatever it was made from. -/
theorem headerKey_headerKey {key : Text}
    (h : ∀ c ∈ headerKey key defaultVersion, isHeaderKey c = true) :
    headerKey (headerKey key defaultVersion) defaultVersion = headerKey key defaultVersion := by
  have hkey : ∀ k, headerKey k defaultVersion = ['-'].intercalate ((fieldsAt '-' k).map capitalized) := by
    intro k
    exact if_pos (by decide)
  cases hfs : fieldsAt '-' key with
  | nil => rw [hkey key, hfs]; rfl
  | cons f fs =>
      have hno : ∀ g ∈ (f :: fs).map capitalized, '-' ∉ g := by
        intro g hg
        obtain ⟨f', hf', rfl⟩ := List.mem_map.mp hg
        exact hyphen_notMem_capitalized (notMem_of_mem_fieldsAt (hfs ▸ hf'))
      -- capitals bring in no hyphen, so the parts stay apart as they were
      have hsplit : fieldsAt '-' (headerKey key defaultVersion) = (f :: fs).map capitalized := by
        rw [hkey, hfs, List.map_cons, fieldsAt_intercalate hno]
      have hagain : ((f :: fs).map capitalized).map capitalized = (f :: fs).map capitalized := by
        conv => rhs; rw [← List.map_id ((f :: fs).map capitalized)]
        refine List.map_congr_left fun g hg => ?_
        obtain ⟨f', hf', rfl⟩ := List.mem_map.mp hg
        refine capitalized_capitalized fun c hc => h c ?_
        exact (infix_of_mem_fieldsAt (hsplit ▸ hg)).subset hc
      conv => lhs; rw [hkey, hsplit, hagain]
      rw [hkey, hfs]

end HttpFile
