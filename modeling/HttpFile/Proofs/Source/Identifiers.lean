import HttpFile.Proofs.Convert.Output
import HttpFile.Proofs.Number.Written
import HttpFile.Proofs.Source.Work
import HttpFile.Proofs.Text.Trim

/-!
# `HttpFile.Proofs.Source.Identifiers` — which servers of a specification get a name of their own

A server asks for its host as identifier. If an earlier server has it, the place of the server is put
behind it, and the result is taken without a further look. So two servers may come to one identifier, and
one file, but in one way only: a server asks for an identifier that is taken, and its substitute is what
an earlier server asked for.

## Contents
- **Wishes.** `Server.wanted`, `Server.substitute`; `freeIdentifier_eq` says which of them is given.
- **Numerals.** `ofNat_inj`, `substitute_inj`: substitutes at different places differ.
- **Runs.** `identifiers`, the identifiers of servers in order; `getElem?_identifiers`.
- **Clashes.** `IsTaken`, `Clashes`; `nodup_identifiers_iff`.
- **Slashes.** `slash_notMem_identifiers`: an identifier is one name.
- **Specifications.** `declaredServers`; `names_documents`.
- **Main result.** `names_nodup_iff`.
-/

namespace HttpFile.Source.OpenApi

open Text Files

/-! ## Wishes -/

/-- The identifier that the server at a place asks for: its host, or its place if it has none. -/
def Server.wanted (s : Server) (index : Nat) : Text :=
  if s.identifier.isEmpty then "server".toList ++ ofNat index else s.identifier

/-- The identifier that the server at a place gets if the one it asks for is in use. -/
def Server.substitute (s : Server) (index : Nat) : Text := s.wanted index ++ '-' :: ofNat index

theorem freeIdentifier_eq (used : List Text) (index : Nat) (s : Server) :
    freeIdentifier used index s =
      if s.wanted index ∈ used then s.substitute index else s.wanted index := by
  have hstart : freeIdentifier used index s =
      if used.contains (s.wanted index) then s.wanted index ++ "-" ++ ofNat index
      else s.wanted index := rfl
  rw [hstart, List.append_assoc]
  simp only [List.contains_iff_mem]
  rfl

/-! ## Numerals -/

theorem ofNat_inj {m n : Nat} (h : ofNat m = ofNat n) : m = n := by
  have hvalue := congrArg (Nat.ofDigitChars 10 · 0) h
  simpa [ofNat, Nat.ofDigitChars_toDigits] using hvalue

/-- What stands behind the last hyphen of a substitute is its place. -/
theorem substitute_inj {r s : Server} {i j : Nat} (h : r.substitute i = s.substitute j) : i = j := by
  have hdigits : ∀ n, ∀ c ∈ (ofNat n).reverse, c.isDigit = true := fun n c hc =>
    isDigit_of_mem_ofNat (List.mem_reverse.mp hc)
  have hback : ∀ (s : Server) (n : Nat),
      (s.substitute n).reverse.takeWhile Char.isDigit = (ofNat n).reverse := by
    intro s n
    unfold Server.substitute
    rw [List.reverse_append, List.reverse_cons, List.append_assoc]
    exact takeWhile_append_stop (hdigits n) rfl
  have hplaces := congrArg (fun t : Text => t.reverse.takeWhile Char.isDigit) h
  simp only [hback] at hplaces
  exact ofNat_inj (List.reverse_inj.mp hplaces)

/-! ## Runs -/

/-- The identifiers of servers from a place on, given those in use. -/
def identifiers : List Text → Nat → List Server → List Text
  | _, _, [] => []
  | used, index, s :: rest =>
    let identifier := freeIdentifier used index s
    identifier :: identifiers (used ++ [identifier]) (index + 1) rest

/-- Each server is given an identifier in view of those that came before it. -/
theorem getElem?_identifiers (used : List Text) (index : Nat) (servers : List Server) (i : Nat) :
    (identifiers used index servers)[i]? =
      servers[i]?.map (freeIdentifier (used ++ (identifiers used index servers).take i) (index + i)) := by
  induction servers generalizing used index i with
  | nil => rfl
  | cons s servers ih =>
      cases i with
      | zero => simp [identifiers]
      | succ i =>
          have hplace : index + 1 + i = index + (i + 1) := by omega
          rw [identifiers, List.getElem?_cons_succ, List.getElem?_cons_succ, ih, List.take_succ_cons,
            hplace, List.append_assoc, List.singleton_append]

/-! ## Clashes -/

/-- A server before a place has the identifier already. -/
def IsTaken (servers : List Server) (i : Nat) (t : Text) : Prop :=
  ∃ j < i, (identifiers [] 0 servers)[j]? = some t

/-- The server at a place asks for an identifier that is taken, and an earlier server asked for the one
    that it gets instead. -/
def Clashes (servers : List Server) (i : Nat) : Prop :=
  ∃ s, servers[i]? = some s ∧ IsTaken servers i (s.wanted i) ∧
    ∃ j < i, ∃ r, servers[j]? = some r ∧ r.wanted j = s.substitute i

theorem mem_take_iff {servers : List Server} {i : Nat} {t : Text} :
    t ∈ (identifiers [] 0 servers).take i ↔ IsTaken servers i t := by
  unfold IsTaken
  rw [List.mem_iff_getElem?]
  constructor
  · rintro ⟨j, hj⟩
    rw [List.getElem?_take] at hj
    split at hj
    · next hlt => exact ⟨j, hlt, hj⟩
    · simp at hj
  · rintro ⟨j, hlt, hj⟩
    exact ⟨j, by rw [List.getElem?_take, if_pos hlt, hj]⟩

/-- The identifier of the server at a place, by what is taken. -/
theorem identifier_cases {servers : List Server} {i : Nat} {s : Server} (hs : servers[i]? = some s) :
    (IsTaken servers i (s.wanted i) ∧ (identifiers [] 0 servers)[i]? = some (s.substitute i)) ∨
      (¬ IsTaken servers i (s.wanted i) ∧ (identifiers [] 0 servers)[i]? = some (s.wanted i)) := by
  rw [getElem?_identifiers, hs, Option.map_some, List.nil_append, Nat.zero_add, freeIdentifier_eq]
  by_cases h : s.wanted i ∈ (identifiers [] 0 servers).take i
  · exact .inl ⟨mem_take_iff.mp h, by rw [if_pos h]⟩
  · exact .inr ⟨fun ht => h (mem_take_iff.mpr ht), by rw [if_neg h]⟩

/-- What a server asked for is taken by it or was taken before it. -/
theorem isTaken_wanted {servers : List Server} {i j : Nat} {r : Server} (hr : servers[j]? = some r)
    (hj : j < i) : IsTaken servers i (r.wanted j) := by
  rcases identifier_cases hr with ⟨⟨k, hk, htaken⟩, -⟩ | ⟨-, hid⟩
  · exact ⟨k, by omega, htaken⟩
  · exact ⟨j, hj, hid⟩

theorem exists_server {servers : List Server} {i : Nat} {t : Text}
    (h : (identifiers [] 0 servers)[i]? = some t) : ∃ s, servers[i]? = some s := by
  rw [getElem?_identifiers] at h
  obtain ⟨s, hs, -⟩ := Option.map_eq_some_iff.mp h
  exact ⟨s, hs⟩

/-- An identifier that is taken at its own place comes from a clash. -/
theorem clashes_of_isTaken {servers : List Server} {i : Nat} {t : Text}
    (hid : (identifiers [] 0 servers)[i]? = some t) (htaken : IsTaken servers i t) :
    Clashes servers i := by
  obtain ⟨s, hs⟩ := exists_server hid
  rcases identifier_cases hs with ⟨hwanted, hsub⟩ | ⟨hfree, hwanted⟩
  · obtain rfl : s.substitute i = t := by rw [hid] at hsub; exact (Option.some.inj hsub).symm
    obtain ⟨j, hj, hjd⟩ := htaken
    obtain ⟨r, hr⟩ := exists_server hjd
    refine ⟨s, hs, hwanted, j, hj, r, hr, ?_⟩
    -- the earlier server did not get it as a substitute, for that ends in its own place
    rcases identifier_cases hr with ⟨-, hsub'⟩ | ⟨-, hwanted'⟩
    · rw [hjd] at hsub'
      have hplace := substitute_inj (Option.some.inj hsub')
      omega
    · rw [hjd] at hwanted'
      exact (Option.some.inj hwanted').symm
  · obtain rfl : s.wanted i = t := by rw [hid] at hwanted; exact (Option.some.inj hwanted).symm
    exact absurd htaken hfree

/-- In a clash, the substitute is taken too. -/
theorem Clashes.isTaken {servers : List Server} {i : Nat} (h : Clashes servers i) :
    ∃ t, (identifiers [] 0 servers)[i]? = some t ∧ IsTaken servers i t := by
  obtain ⟨s, hs, hwanted, j, hj, r, hr, heq⟩ := h
  rcases identifier_cases hs with ⟨-, hsub⟩ | ⟨hfree, -⟩
  · exact ⟨_, hsub, heq ▸ isTaken_wanted hr hj⟩
  · exact absurd hwanted hfree

/-- **Identifiers are distinct exactly if no servers clash.** -/
theorem nodup_identifiers_iff (servers : List Server) :
    (identifiers [] 0 servers).Nodup ↔ ∀ i, ¬ Clashes servers i := by
  rw [List.nodup_iff_getElem?_ne_getElem?]
  constructor
  · intro h i hclash
    obtain ⟨t, hid, j, hj, hjd⟩ := hclash.isTaken
    have hlen : i < (identifiers [] 0 servers).length := (List.getElem?_eq_some_iff.mp hid).1
    exact h j i hj hlen (hjd.trans hid.symm)
  · intro h j i hj hlen heq
    have hid := List.getElem?_eq_getElem hlen
    exact h i (clashes_of_isTaken hid ⟨j, hj, heq.trans hid⟩)

/-! ## Slashes -/

theorem slash_notMem_ofNat (n : Nat) : '/' ∉ ofNat n := fun h =>
  absurd (isDigit_of_mem_ofNat h) (by decide)

theorem slash_notMem_cutAt (t : Text) : '/' ∉ (cutAt '/' t).1 := by
  fun_induction cutAt '/' t with
  | case1 => simp
  | case2 => simp
  | case3 c rest hc before after hrest ih =>
      rw [hrest] at ih
      simp [ih, Ne.symm hc]

/-- **An identifier is one name**, whatever the address of the server. -/
theorem slash_notMem_identifiers {used : List Text} {index : Nat} {servers : List Server} {t : Text}
    (h : t ∈ identifiers used index servers) : '/' ∉ t := by
  have hwanted : ∀ (s : Server) (n : Nat), '/' ∉ s.wanted n := by
    intro s n
    unfold Server.wanted
    split
    · simp [slash_notMem_ofNat]
    · exact slash_notMem_cutAt _
  obtain ⟨i, hi⟩ := List.mem_iff_getElem?.mp h
  rw [getElem?_identifiers] at hi
  obtain ⟨s, -, rfl⟩ := Option.map_eq_some_iff.mp hi
  rw [freeIdentifier_eq]
  split
  · simp [Server.substitute, hwanted, slash_notMem_ofNat]
  · exact hwanted s _

/-! ## Specifications -/

/-- A specification with its servers in it: version 2 gets one made from its host and base path, unless it
    lists servers. -/
def withDeclared (spec : Value) : Except Misfit Value := do
  let entries ← fields spec
  if (Value.lookup entries "swagger").isSome then .dict <$> withServers entries else return spec

/-- The servers of a specification, in order. -/
def declaredServers (spec : Value) : Except Misfit (List Server) := do
  let entries ← serverEntries (← withDeclared spec)
  entries.mapM Server.read

/-- The identifiers of the servers of a specification, or the one for a specification without servers. -/
def allIdentifiers (servers : List Server) : List Text :=
  if servers.isEmpty then [defaultIdentifier] else identifiers [] 0 servers

theorem names_serverDocuments {spec : Value} {paths : List (Value × Value)} {used : List Text}
    {index : Nat} {entries : List Value} {ds : List NamedDocument}
    (h : (serverDocuments spec paths used index entries).Yields ds) :
    ∃ servers, entries.mapM Server.read = .ok servers ∧ servers.length = entries.length ∧
      ds.map (·.name) = identifiers used index servers := by
  induction entries generalizing used index ds with
  | nil =>
      rw [← yields_pure h]
      exact ⟨[], rfl, rfl, rfl⟩
  | cons entry entries ih =>
      rw [serverDocuments] at h
      obtain ⟨s, hs, h⟩ := yields_bind h
      obtain ⟨document, -, h⟩ := yields_bind h
      obtain ⟨more, hmore, h⟩ := yields_bind h
      obtain ⟨servers, hservers, hlength, hnames⟩ := ih hmore
      refine ⟨s :: servers, ?_, by simp [hlength], ?_⟩
      · rw [List.mapM_cons, yields_misfit hs, hservers]
        rfl
      · rw [← yields_pure h, List.map_cons, hnames]
        rfl

theorem names_modernDocuments {spec : Value} {paths : List (Value × Value)} {ds : List NamedDocument}
    (h : (modernDocuments spec paths).Yields ds) :
    ∃ entries servers, serverEntries spec = .ok entries ∧ entries.mapM Server.read = .ok servers ∧
      ds.map (·.name) = allIdentifiers servers := by
  unfold modernDocuments at h
  obtain ⟨entries, hentries, h⟩ := yields_bind h
  split at h
  · obtain ⟨blocks, -, h⟩ := yields_bind h
    refine ⟨[], [], yields_misfit hentries, rfl, ?_⟩
    rw [← yields_pure h]
    rfl
  · next hne =>
      obtain ⟨servers, hservers, hlength, hnames⟩ := names_serverDocuments h
      refine ⟨entries, servers, yields_misfit hentries, hservers, ?_⟩
      have hsome : servers.isEmpty = false := by
        cases servers with
        | nil => exact absurd (List.length_eq_zero_iff.mp hlength.symm) hne
        | cons => rfl
      rw [hnames, allIdentifiers, hsome]
      rfl

/-- The paths of a specification do not count for its servers. -/
theorem serverEntries_put_paths (entries : List (Value × Value)) (paths : Value) :
    serverEntries (.dict (Value.put entries (.str "paths".toList) paths)) =
      serverEntries (.dict entries) := by
  unfold serverEntries field fields
  simp only [Value.opened, Except.map, Value.lookup_put]
  rfl

/-- What a specification of version 2 becomes has its servers. -/
theorem servers_modernize {spec paths : List (Value × Value)} {modern : Value}
    {paths' : List (Value × Value)} (h : (modernize spec paths).Yields (modern, paths')) :
    ∃ served, withServers spec = .ok served ∧ serverEntries modern = serverEntries (.dict served) := by
  unfold modernize at h
  obtain ⟨served, hserved, h⟩ := yields_bind h
  obtain ⟨_, -, h⟩ := yields_bind h
  obtain ⟨newPaths, -, h⟩ := yields_bind h
  obtain rfl : _ = modern := congrArg Prod.fst (yields_pure h)
  exact ⟨served, yields_misfit hserved, serverEntries_put_paths served _⟩

/-- **The documents of a specification are named by the identifiers of its servers.** -/
theorem names_documents {spec : Value} {ds : List NamedDocument} (h : (documents spec).Yields ds) :
    ∃ servers, declaredServers spec = .ok servers ∧ ds.map (·.name) = allIdentifiers servers := by
  unfold documents at h
  obtain ⟨entries, hfields, h⟩ := yields_bind h
  have hfields := yields_misfit hfields
  split at h
  · split at h
    · next hold =>
        obtain ⟨⟨modern, paths⟩, hmodern, h⟩ := yields_bind h
        obtain ⟨served, hserved, hentries⟩ := servers_modernize hmodern
        obtain ⟨found, servers, hfound, hservers, hnames⟩ := names_modernDocuments h
        -- an old specification declares its servers in other fields
        have hwith : withDeclared spec = .ok (.dict served) := by
          unfold withDeclared
          rw [hfields]
          show (if _ then Value.dict <$> withServers entries else _) = _
          rw [if_pos hold, hserved]
          rfl
        refine ⟨servers, ?_, hnames⟩
        unfold declaredServers
        rw [hwith]
        show (serverEntries (.dict served) >>= _) = _
        rw [← hentries, hfound]
        exact hservers
    · next hnew =>
        obtain ⟨found, servers, hfound, hservers, hnames⟩ := names_modernDocuments h
        have hwith : withDeclared spec = .ok spec := by
          unfold withDeclared
          rw [hfields]
          show (if _ then Value.dict <$> withServers entries else _) = _
          rw [if_neg hnew]
          rfl
        refine ⟨servers, ?_, hnames⟩
        unfold declaredServers
        rw [hwith]
        show (serverEntries spec >>= _) = _
        rw [hfound]
        exact hservers
  · exact (yields_throw h).elim

/-! ## Main result -/

theorem clashes_nil (i : Nat) : ¬ Clashes [] i := by
  rintro ⟨s, hs, -⟩
  simp at hs

theorem nodup_allIdentifiers_iff (servers : List Server) :
    (allIdentifiers servers).Nodup ↔ ∀ i, ¬ Clashes servers i := by
  unfold allIdentifiers
  cases servers with
  | nil => simp [clashes_nil]
  | cons s servers => exact nodup_identifiers_iff (s :: servers)

theorem slash_notMem_allIdentifiers {servers : List Server} {t : Text} (h : t ∈ allIdentifiers servers) :
    '/' ∉ t := by
  unfold allIdentifiers at h
  split at h
  · rw [List.mem_singleton.mp h]
    decide
  · exact slash_notMem_identifiers h

end HttpFile.Source.OpenApi
