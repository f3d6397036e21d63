import HttpFile.Proofs.Source.Blocks
import Mathlib.Data.List.Find
import Mathlib.Data.List.Induction

/-!
# `HttpFile.Proofs.Source.HeaderParameter` — headers from the parameters of a path and of its operations

Parameters with the same name and place are one, which stands where the first of them stands and says what the last of
them says. Headers are looked up without regard to case, and here the first one wins. So of the parameters whose names
differ in case only, the one that comes first gives the spelling, and the last one with that very spelling gives the
value. It is one of the operation exactly if the operation has a parameter with that spelling.

## Contents
- **Parameters.** `parameterName`, `parameterPlace`, `parameterKey`; `headerParameters`, `isCalled`.
- **Keys.** `sameKey_congr`, `asText_congr`: keys that are the same are the same text, or none.
- **Merging.** `gather`, `gather_of_mergeParameters`; `find?_put`, `find?_gather`, `find?_merged`.
- **Headers.** `addParameter_cases`, `pairwise_addParameters`, `find?_addParameters`.
- **Main result.** `HeadersOf`, `HasHeaders`, `headers_of_documents`, with an example, and two spellings of one name.
-/

namespace HttpFile.Source.OpenApi

open Text

/-! ## Parameters -/

/-- The name of a parameter. -/
def parameterName (p : Value) : Value := (p.get? "name").getD .null

/-- The place of a parameter. -/
def parameterPlace (p : Value) : Value := (p.get? "in").getD .null

/-- The name and the place of a parameter. -/
def parameterKey (p : Value) : ParameterKey := (parameterName p, parameterPlace p)

/-- Whether the place of a parameter is the header. -/
def isHeaderParameter (p : Value) : Bool := (parameterPlace p).sameKey (.str "header")

/-- Whether two parameters have the very same name. -/
def sameName (p q : Value) : Bool := (parameterName p).sameKey (parameterName q)

/-- Whether a parameter has a name that is a given one but for the case. -/
def isCalled (t : Text) (p : Value) : Bool :=
  ((asText (parameterName p)).toOption.map (sameIgnoringCase · t)).getD false

/-- What nodes stand for, if it has a name. -/
def namedParameters (spec : Value) (nodes : List Value) : List Value :=
  (nodes.filterMap (resolved? spec)).filter fun p => (Value.ifTruthy (p.get? "name")).isSome

/-- The parameters in a list of parameters. -/
def parametersOf (spec v : Value) : List Value := namedParameters spec ((elementsIfAny v).toOption.getD [])

/-- The header parameters in a list of parameters. -/
def headerParameters (spec v : Value) : List Value := (parametersOf spec v).filter isHeaderParameter

/-! ## Keys -/

theorem str_sameKey {t : Text} {v : Value} (h : (Value.str t).sameKey v = true) : v = .str t := by
  cases v with
  | str u => rw [eq_of_beq (show (t == u) = true from h)]
  | _ => simp [Value.sameKey, Value.integer?] at h

/-- A key that is the same as a text is that text. -/
theorem sameKey_congr {a b : Value} (h : a.sameKey b = true) (t : Text) :
    a.sameKey (.str t) = b.sameKey (.str t) := by
  rw [Bool.eq_iff_iff, Value.sameKey_str, Value.sameKey_str]
  constructor
  · rintro rfl
    exact str_sameKey h
  · rintro rfl
    exact Value.sameKey_str.mp h

/-- The same keys stand for the same text, or both for none. -/
theorem asText_congr {a b : Value} (h : a.sameKey b = true) : asText a = asText b := by
  cases a with
  | str t => rw [str_sameKey h]
  | halves codes =>
      cases b with
      | halves more => rw [of_decide_eq_true (show decide (codes = more) = true from h)]
      | _ => simp [Value.sameKey, Value.integer?] at h
  | bytes bs =>
      cases b with
      | bytes more => rw [eq_of_beq (show (bs == more) = true from h)]
      | _ => simp [Value.sameKey, Value.integer?] at h
  | _ =>
      cases b with
      | str t => cases Value.sameKey_str.mp h
      | halves codes => simp [Value.sameKey, Value.integer?] at h
      | bytes bs => simp [Value.sameKey, Value.integer?] at h
      | _ => rfl

theorem sameKey_self {v : Value} {t : Text} (h : asText v = .ok t) : v.sameKey v = true := by
  cases v with
  | str u => exact beq_self_eq_true u
  | halves codes => exact decide_eq_true (rfl : codes = codes)
  | bytes bs => exact beq_self_eq_true bs
  | _ => cases h

theorem str_sameKey_comm (t : Text) (v : Value) : (Value.str t).sameKey v = v.sameKey (.str t) := by
  rw [Bool.eq_iff_iff, Value.sameKey_str]
  constructor
  · exact str_sameKey
  · rintro rfl
    exact beq_self_eq_true t

/-! ## Merging -/

/-- Parameters in order, each in the place of an earlier one with the same name and place. -/
def gather (ps : List Value) : List (ParameterKey × Value) :=
  ps.foldl (fun gathered p => putParameter (parameterKey p) p gathered) []

theorem gather_of_mergeInto {spec : Value} {before after : List (ParameterKey × Value)} {nodes : List Value}
    (h : (mergeInto spec before nodes).Yields after) :
    after = (namedParameters spec nodes).foldl (fun gathered p => putParameter (parameterKey p) p gathered) before := by
  induction nodes generalizing before with
  | nil => exact (yields_pure h).symm
  | cons node nodes ih =>
      rw [mergeInto] at h
      obtain ⟨p, hp, h⟩ := yields_bind h
      have hnode : namedParameters spec (node :: nodes) =
          (if (Value.ifTruthy (p.get? "name")).isSome then [p] else []) ++ namedParameters spec nodes := by
        unfold namedParameters
        rw [List.filterMap_cons_some (resolved?_eq hp), List.filter_cons]
        split <;> rfl
      rw [hnode]
      split at h
      · next hname =>
          -- a parameter without a name is left out
          rw [hname]
          exact ih h
      · next name hname =>
          have hkey : parameterKey p = (name, (p.get? "in").getD .null) := by
            unfold parameterKey parameterName
            rw [(Option.filter_eq_some_iff.mp hname).1]
            rfl
          rw [hname]
          dsimp only at h
          split at h
          · rw [ih h, ← hkey]
            rfl
          · exact (yields_throw h).elim

theorem gather_of_mergeParameters {spec shared own : Value} {ps : List Value}
    (h : (mergeParameters spec shared own).Yields ps) :
    ps = (gather (parametersOf spec shared ++ parametersOf spec own)).map (·.2) := by
  unfold mergeParameters at h
  obtain ⟨sharedNodes, hshared, h⟩ := yields_bind h
  obtain ⟨ownNodes, hown, h⟩ := yields_bind h
  obtain ⟨gathered, hgathered, h⟩ := yields_bind h
  have happend : namedParameters spec (sharedNodes ++ ownNodes) =
      namedParameters spec sharedNodes ++ namedParameters spec ownNodes := by
    unfold namedParameters
    rw [List.filterMap_append, List.filter_append]
  rw [← yields_pure h, gather_of_mergeInto hgathered, happend, parametersOf, parametersOf, yields_misfit hshared,
    yields_misfit hown]
  rfl

theorem gather_snoc (ps : List Value) (q : Value) :
    gather (ps ++ [q]) = putParameter (parameterKey q) q (gather ps) := by
  unfold gather
  rw [List.foldl_append]
  rfl

section Find

variable {P : ParameterKey → Bool}

/-- What is found in view of the keys is what was found before, with the new value if it has the new key, or else
    what is put. -/
theorem find?_put (hsame : ∀ k k', k.same k' = true → P k = P k') (key : ParameterKey) (p : Value)
    (gathered : List (ParameterKey × Value)) :
    (putParameter key p gathered).find? (fun e => P e.1) =
      ((gathered.find? fun e => P e.1).map fun e => if e.1.same key then (e.1, p) else e).or
        (if P key then some (key, p) else none) := by
  induction gathered with
  | nil =>
      rw [putParameter, List.find?_singleton]
      rfl
  | cons e gathered ih =>
      obtain ⟨k, v⟩ := e
      rw [putParameter]
      by_cases hk : k.same key = true
      · rw [if_pos hk, List.find?_cons, List.find?_cons]
        cases hP : P k with
        | true => simp [hk]
        | false =>
            have hkey : P key = false := by rw [← hsame k key hk, hP]
            -- what is found behind it has another key
            have hother : ((gathered.find? fun e => P e.1).map fun e => if e.1.same key then (e.1, p) else e) =
                gathered.find? fun e => P e.1 := by
              cases hfound : gathered.find? fun e => P e.1 with
              | none => rfl
              | some e =>
                  have hPe : P e.1 = true := List.find?_some (p := fun e : ParameterKey × Value => P e.1) hfound
                  have hne : ¬e.1.same key = true := by
                    intro he
                    rw [hsame e.1 key he, hkey] at hPe
                    cases hPe
                  rw [Option.map_some, if_neg hne]
            simp [hkey, hother]
      · rw [if_neg hk, List.find?_cons, List.find?_cons]
        cases hP : P k with
        | true => simp [hk]
        | false => simpa using ih

/-- Among gathered parameters the first one that is looked for gives the key, and the last one with that key the
    value. -/
theorem find?_gather (hsame : ∀ k k', k.same k' = true → P k = P k') (hself : ∀ k, P k = true → k.same k = true)
    (ps : List Value) :
    (gather ps).find? (fun e => P e.1) = (ps.find? fun p => P (parameterKey p)).bind fun first =>
      (ps.reverse.find? fun q => (parameterKey first).same (parameterKey q)).map (Prod.mk (parameterKey first)) := by
  -- the last parameter is put in last, so the induction is from the end
  induction ps using List.reverseRecOn with
  | nil => rfl
  | append_singleton ps q ih =>
      rw [gather_snoc, find?_put hsame, ih, List.find?_append, List.reverse_append]
      cases hfirst : ps.find? fun p => P (parameterKey p) with
      | none =>
          by_cases hq : P (parameterKey q) = true
          · simp [hq, hself _ hq]
          · simp [hq]
      | some first =>
          have hP : P (parameterKey first) = true := List.find?_some (p := fun p => P (parameterKey p)) hfirst
          obtain ⟨last, hlast⟩ : ∃ last,
              (ps.reverse.find? fun q => (parameterKey first).same (parameterKey q)) = some last := by
            apply Option.isSome_iff_exists.mp
            apply List.find?_isSome.mpr
            exact ⟨first, List.mem_reverse.mpr (List.mem_of_find?_eq_some hfirst), hself _ hP⟩
          by_cases hq : (parameterKey first).same (parameterKey q) = true
          · simp [hlast, hq]
          · simp [hlast, hq]

end Find

theorem mem_put {key : ParameterKey} {p : Value} {gathered : List (ParameterKey × Value)} {e : ParameterKey × Value}
    (h : e ∈ putParameter key p gathered) : e ∈ gathered ∨ e.2 = p ∧ (e.1 = key ∨ e.1.same key = true) := by
  induction gathered with
  | nil =>
      obtain rfl := List.mem_singleton.mp h
      exact .inr ⟨rfl, .inl rfl⟩
  | cons d gathered ih =>
      obtain ⟨k, v⟩ := d
      rw [putParameter] at h
      split at h
      · next hk =>
          rcases List.mem_cons.mp h with rfl | h
          · exact .inr ⟨rfl, .inr hk⟩
          · exact .inl (List.mem_cons_of_mem _ h)
      · rcases List.mem_cons.mp h with rfl | h
        · exact .inl List.mem_cons_self
        · exact (ih h).imp_left (List.mem_cons_of_mem _)

/-- What was gathered are parameters under their own keys, or under keys that are the same. -/
theorem mem_gather {ps : List Value} {e : ParameterKey × Value} (h : e ∈ gather ps) :
    e.2 ∈ ps ∧ (e.1 = parameterKey e.2 ∨ e.1.same (parameterKey e.2) = true) := by
  induction ps using List.reverseRecOn with
  | nil => exact absurd h List.not_mem_nil
  | append_singleton ps q ih =>
      rw [gather_snoc] at h
      rcases mem_put h with h | ⟨rfl, hkey⟩
      · obtain ⟨hmem, hkey⟩ := ih h
        exact ⟨List.mem_append_left _ hmem, hkey⟩
      · exact ⟨List.mem_append_right _ List.mem_cons_self, hkey⟩

/-- Whether a key is that of a header parameter with a name that is a given one but for the case. -/
def isHeaderKey (t : Text) (key : ParameterKey) : Bool :=
  key.2.sameKey (.str "header") && ((asText key.1).toOption.map (sameIgnoringCase · t)).getD false

theorem isHeaderKey_congr (t : Text) (k k' : ParameterKey) (h : k.same k' = true) :
    isHeaderKey t k = isHeaderKey t k' := by
  obtain ⟨hname, hplace⟩ := Bool.and_eq_true_iff.mp h
  unfold isHeaderKey
  rw [sameKey_congr hplace, asText_congr hname]

theorem same_self_of_isHeaderKey {t : Text} (k : ParameterKey) (h : isHeaderKey t k = true) : k.same k = true := by
  obtain ⟨hplace, hname⟩ := Bool.and_eq_true_iff.mp h
  apply Bool.and_eq_true_iff.mpr
  constructor
  · cases htext : asText k.1 with
    | ok u => exact sameKey_self htext
    | error e =>
        rw [htext] at hname
        cases hname
  · rw [Value.sameKey_str.mp hplace]
    exact beq_self_eq_true _

/-- **Of the header parameters with a name the first one gives the spelling**, and the last one with that spelling
    is what they are merged into. -/
theorem find?_merged (t : Text) (ps : List Value) :
    ((gather ps).map (·.2)).find? (fun p => isHeaderParameter p && isCalled t p) =
      ((ps.filter isHeaderParameter).find? (isCalled t)).bind fun first =>
        (ps.filter isHeaderParameter).reverse.find? (sameName first) := by
  have hkeys : ∀ e ∈ gather ps, isHeaderKey t (parameterKey e.2) = isHeaderKey t e.1 := by
    intro e he
    rcases (mem_gather he).2 with hkey | hkey
    · rw [hkey]
    · exact (isHeaderKey_congr t _ _ hkey).symm
  -- the key says both, that a parameter is for a header and how it is called
  have hfilter : (ps.filter isHeaderParameter).find? (isCalled t) =
      ps.find? fun p => isHeaderKey t (parameterKey p) := by
    rw [List.find?_filter]
    simp only [Bool.decide_and, Bool.decide_eq_true]
    rfl
  rw [List.find?_map, hfilter]
  show ((gather ps).find? fun e => isHeaderKey t (parameterKey e.2)).map (·.2) = _
  rw [List.find?_congr hkeys, find?_gather (isHeaderKey_congr t) same_self_of_isHeaderKey]
  cases hfirst : ps.find? fun p => isHeaderKey t (parameterKey p) with
  | none => rfl
  | some first =>
      have hheader : parameterPlace first = .str "header" := by
        have hkey := List.find?_some (p := fun p => isHeaderKey t (parameterKey p)) hfirst
        exact Value.sameKey_str.mp (Bool.and_eq_true_iff.mp hkey).1
      have hsame : (fun q => (parameterKey first).same (parameterKey q)) =
          fun q => isHeaderParameter q && sameName first q := by
        funext q
        show ((parameterName first).sameKey (parameterName q) && (parameterPlace first).sameKey (parameterPlace q)) = _
        rw [hheader, str_sameKey_comm, Bool.and_comm]
        rfl
      rw [Option.bind_some, Option.bind_some, ← List.filter_reverse, List.find?_filter, hsame, Option.map_map]
      simp only [Bool.decide_and, Bool.decide_eq_true]
      exact congrFun Option.map_id_fun' _

/-! ## Headers -/

theorem isTaken_of_string {headers : List Header} {name : Value} {u : Text} (hu : name.string? = some u) :
    isTaken headers name = .ok (headers.any fun x => sameIgnoringCase x.key u) := by
  unfold isTaken
  rw [hu]
  cases headers with
  | nil => rfl
  | cons x headers => rfl

theorem isTaken_true {headers : List Header} {name : Value} (h : isTaken headers name = .ok true) :
    ∃ u, asText name = .ok u ∧ ∃ x ∈ headers, sameIgnoringCase x.key u = true := by
  cases hname : name.string? with
  | some u =>
      rw [isTaken_of_string hname] at h
      exact ⟨u, asText_of_string hname, List.any_eq_true.mp (Except.ok.inj h)⟩
  | none =>
      unfold isTaken at h
      rw [hname] at h
      cases headers with
      | nil => cases h
      | cons x headers => cases name <;> cases h

/-- A parameter is left out, since it is for another place or its name is taken, or a header is added for it. -/
theorem addParameter_cases {headers headers' : List Header} {p : Value} (h : addParameter headers p = .ok headers') :
    (headers' = headers ∧ (isHeaderParameter p = true →
      ∃ u, asText (parameterName p) = .ok u ∧ ∃ x ∈ headers, sameIgnoringCase x.key u = true)) ∨
    (isHeaderParameter p = true ∧ ∃ x : Header, headers' = headers ++ [x] ∧
      asText (parameterName p) = .ok x.key ∧ parameterValue p = .ok x.value ∧
      ((parameterName p).string?.isSome = true → ∀ y ∈ headers, sameIgnoringCase y.key x.key = false)) := by
  unfold addParameter at h
  dsimp only at h
  split at h
  · next hplace =>
      refine .inl ⟨(Except.ok.inj h).symm, fun hheader => ?_⟩
      rw [show ((p.get? "in").getD .null).sameKey (.str "header".toList) = true from hheader] at hplace
      cases hplace
  · next hplace =>
      have hheader : isHeaderParameter p = true := by
        have hyes : (!isHeaderParameter p) = false := Bool.eq_false_iff.mpr hplace
        rwa [Bool.not_eq_eq_eq_not] at hyes
      obtain ⟨taken, htaken, h⟩ := ok_of_bind h
      split at h
      · next hyes =>
          subst hyes
          exact .inl ⟨(Except.ok.inj h).symm, fun _ => isTaken_true htaken⟩
      · next hno =>
          obtain rfl : taken = false := Bool.eq_false_iff.mpr hno
          obtain ⟨value, hvalue, h⟩ := ok_of_bind h
          obtain ⟨key, hkey, h⟩ := ok_of_bind h
          refine .inr ⟨hheader, ⟨key, value⟩, (Except.ok.inj h).symm, hkey, hvalue, fun htext => ?_⟩
          obtain ⟨u, hu⟩ := Option.isSome_iff_exists.mp htext
          obtain rfl : u = key := Except.ok.inj ((asText_of_string hu).symm.trans hkey)
          have hnone := Except.ok.inj ((isTaken_of_string hu).symm.trans htaken)
          intro y hy
          exact Bool.eq_false_iff.mpr (List.any_eq_false.mp hnone y hy)

theorem prefix_addParameters {headers headers' : List Header} {ps : List Value}
    (h : ps.foldlM addParameter headers = .ok headers') : headers <+: headers' := by
  induction ps generalizing headers with
  | nil => exact Except.ok.inj h ▸ List.prefix_rfl
  | cons p ps ih =>
      rw [List.foldlM_cons] at h
      obtain ⟨mid, hmid, hrun⟩ := ok_of_bind h
      rcases addParameter_cases hmid with ⟨rfl, -⟩ | ⟨-, x, rfl, -⟩
      · exact ih hrun
      · exact (List.prefix_append headers [x]).trans (ih hrun)

/-- The headers that are added are different from those before them but for names that are no texts. -/
theorem pairwise_addParameters {headers headers' : List Header} {ps : List Value}
    (h : ps.foldlM addParameter headers = .ok headers')
    (htexts : ∀ p ∈ ps, isHeaderParameter p = true → (parameterName p).string?.isSome = true)
    (hheaders : headers.Pairwise fun x y => sameIgnoringCase x.key y.key = false) :
    headers'.Pairwise fun x y => sameIgnoringCase x.key y.key = false := by
  induction ps generalizing headers with
  | nil => exact Except.ok.inj h ▸ hheaders
  | cons p ps ih =>
      rw [List.foldlM_cons] at h
      obtain ⟨mid, hmid, hrun⟩ := ok_of_bind h
      have hrest := fun q hq => htexts q (List.mem_cons_of_mem p hq)
      rcases addParameter_cases hmid with ⟨rfl, -⟩ | ⟨hheader, x, rfl, -, -, hnew⟩
      · exact ih hrun hrest hheaders
      · refine ih hrun hrest ?_
        apply List.pairwise_append.mpr
        refine ⟨hheaders, List.pairwise_singleton _ _, ?_⟩
        intro y hy z hz
        rw [List.mem_singleton.mp hz]
        exact hnew (htexts p List.mem_cons_self hheader) y hy

theorem sameIgnoringCase_trans {s t u : Text} (hst : sameIgnoringCase s t = true) (htu : sameIgnoringCase t u = true) :
    sameIgnoringCase s u = true := by
  unfold sameIgnoringCase at *
  rw [beq_iff_eq] at *
  exact hst.trans htu

theorem isCalled_iff {t : Text} {p : Value} {u : Text} (h : asText (parameterName p) = .ok u) :
    isCalled t p = sameIgnoringCase u t := by
  unfold isCalled
  rw [h]
  rfl

/-- A name that no header has is given to the first parameter with it. -/
theorem find?_addParameters {headers headers' : List Header} {ps : List Value} {t : Text} {p : Value}
    (h : ps.foldlM addParameter headers = .ok headers')
    (hnone : ∀ x ∈ headers, sameIgnoringCase x.key t = false)
    (hp : ps.find? (fun p => isHeaderParameter p && isCalled t p) = some p) :
    ∃ x, headers'.find? (fun x => sameIgnoringCase x.key t) = some x ∧
      asText (parameterName p) = .ok x.key ∧ parameterValue p = .ok x.value := by
  induction ps generalizing headers with
  | nil => cases hp
  | cons q ps ih =>
      rw [List.foldlM_cons] at h
      obtain ⟨mid, hmid, hrun⟩ := ok_of_bind h
      rcases addParameter_cases hmid with ⟨rfl, htaken⟩ | ⟨hheader, x, rfl, hkey, hvalue, -⟩
      · have hq : (isHeaderParameter q && isCalled t q) = false := by
          rw [Bool.eq_false_iff]
          intro hq
          obtain ⟨hheader, hcalled⟩ := Bool.and_eq_true_iff.mp hq
          -- it was left out, so its name is taken, but no header has the name
          obtain ⟨u, hu, x, hx, hxu⟩ := htaken hheader
          rw [isCalled_iff hu] at hcalled
          exact Bool.eq_false_iff.mp (hnone x hx) (sameIgnoringCase_trans hxu hcalled)
        rw [List.find?_cons, hq] at hp
        exact ih hrun hnone hp
      · cases hcalled : sameIgnoringCase x.key t with
        | true =>
            have hq : (isHeaderParameter q && isCalled t q) = true := by
              rw [hheader, isCalled_iff hkey, hcalled]
              rfl
            rw [List.find?_cons, hq] at hp
            obtain rfl := Option.some.inj hp
            obtain ⟨more, rfl⟩ := prefix_addParameters hrun
            refine ⟨x, ?_, hkey, hvalue⟩
            have hbefore : headers.find? (fun x => sameIgnoringCase x.key t) = none :=
              List.find?_eq_none.mpr fun y hy => Bool.eq_false_iff.mp (hnone y hy)
            rw [List.find?_append, List.find?_append, hbefore]
            simp [hcalled]
        | false =>
            have hq : (isHeaderParameter q && isCalled t q) = false := by
              rw [isCalled_iff hkey, hcalled, Bool.and_false]
            rw [List.find?_cons, hq] at hp
            refine ih hrun ?_ hp
            rw [List.forall_mem_append, List.forall_mem_singleton]
            exact ⟨hnone, hcalled⟩

/-- The body calls for a header for its type, or for none. -/
theorem given_of_bodyOf {spec operation : Value} {given : List Header} {body : Option Text}
    (h : (bodyOf spec operation).Yields (given, body)) : given = [] ∨ ∃ t, given = [⟨"Content-Type", t⟩] := by
  unfold bodyOf at h
  obtain ⟨requestBody, -, h⟩ := yields_bind h
  obtain ⟨content, -, h⟩ := yields_bind h
  split at h
  · obtain ⟨t, -, h⟩ := yields_bind h
    obtain ⟨media, -, h⟩ := yields_bind h
    obtain ⟨example_, -, h⟩ := yields_bind h
    exact .inr ⟨t, (congrArg Prod.fst (yields_pure h)).symm⟩
  · exact .inl (congrArg Prod.fst (yields_pure h)).symm

/-! ## Main result -/

/-- The parameters of an operation itself. -/
def Site.parameters (s : Site) : Value := (s.operation.get? "parameters").getD .null

/-- What the headers of an operation are, in view of the header that its body calls for, and of the header parameters
    of the path and of the operation. -/
structure HeadersOf (given : List Header) (shared own : List Value) (headers : List Header) : Prop where
  /-- The body calls for no header but the one for its type. -/
  given_type : ∀ x ∈ given, x.key = "Content-Type".toList
  /-- No two headers have the same key but for the case, if the names of all parameters are texts. -/
  distinct : (∀ p ∈ shared ++ own, (parameterName p).string?.isSome = true) →
    headers.Pairwise fun x y => sameIgnoringCase x.key y.key = false
  /-- A name that the operation has a parameter for is spelt as it is spelt first, and has the value of the last
      parameter with this spelling, which is one of the operation exactly if the operation spells it so. -/
  value : ∀ t, (∃ p ∈ own, isCalled t p = true) → (∀ x ∈ given, sameIgnoringCase x.key t = false) →
    ∃ first last x, (shared ++ own).find? (isCalled t) = some first ∧
      (shared ++ own).reverse.find? (sameName first) = some last ∧
      headers.find? (fun x => sameIgnoringCase x.key t) = some x ∧
      asText (parameterName first) = .ok x.key ∧ parameterValue last = .ok x.value ∧
      (last ∈ own ↔ ∃ q ∈ own, sameName first q = true)

theorem mem_own_iff {shared own : List Value} {first last : Value}
    (h : (shared ++ own).reverse.find? (sameName first) = some last) :
    last ∈ own ↔ ∃ q ∈ own, sameName first q = true := by
  constructor
  · intro hown
    exact ⟨last, hown, List.find?_some h⟩
  · rintro ⟨q, hq, hsame⟩
    -- looking from the end, the parameters of the operation come before those of the path
    obtain ⟨p, hp⟩ : ∃ p, own.reverse.find? (sameName first) = some p := by
      apply Option.isSome_iff_exists.mp
      exact List.find?_isSome.mpr ⟨q, List.mem_reverse.mpr hq, hsame⟩
    rw [List.reverse_append, List.find?_append, hp, Option.some_or] at h
    obtain rfl := Option.some.inj h
    exact List.mem_reverse.mp (List.mem_of_find?_eq_some hp)

theorem headersOf_parameters {spec shared own : Value} {given headers : List Header} {ps : List Value}
    (hgiven : given = [] ∨ ∃ t, given = [⟨"Content-Type", t⟩])
    (hps : (mergeParameters spec shared own).Yields ps) (h : ps.foldlM addParameter given = .ok headers) :
    HeadersOf given (headerParameters spec shared) (headerParameters spec own) headers := by
  have hmerged := gather_of_mergeParameters hps
  have hall : headerParameters spec shared ++ headerParameters spec own =
      (parametersOf spec shared ++ parametersOf spec own).filter isHeaderParameter := (List.filter_append ..).symm
  refine ⟨?_, ?_, ?_⟩
  · rcases hgiven with rfl | ⟨t, rfl⟩
    · simp
    · simp
  · intro htexts
    refine pairwise_addParameters h ?_ ?_
    · intro p hp hheader
      rw [hmerged] at hp
      obtain ⟨e, he, rfl⟩ := List.mem_map.mp hp
      refine htexts e.2 ?_
      rw [hall]
      exact List.mem_filter.mpr ⟨(mem_gather he).1, hheader⟩
    · rcases hgiven with rfl | ⟨t, rfl⟩
      · exact List.Pairwise.nil
      · exact List.pairwise_singleton _ _
  · rintro t ⟨p, hp, hcalled⟩ hfree
    -- the first with the name is merged with all that are spelled as it is
    obtain ⟨first, hfirst⟩ : ∃ first,
        (headerParameters spec shared ++ headerParameters spec own).find? (isCalled t) = some first := by
      apply Option.isSome_iff_exists.mp
      exact List.find?_isSome.mpr ⟨p, List.mem_append_right _ hp, hcalled⟩
    have hspelt : isCalled t first = true := List.find?_some hfirst
    obtain ⟨u, hu⟩ : ∃ u, asText (parameterName first) = .ok u := by
      cases hname : asText (parameterName first) with
      | ok u => exact ⟨u, rfl⟩
      | error e =>
          unfold isCalled at hspelt
          rw [hname] at hspelt
          cases hspelt
    obtain ⟨last, hlast⟩ : ∃ last,
        (headerParameters spec shared ++ headerParameters spec own).reverse.find? (sameName first) = some last := by
      apply Option.isSome_iff_exists.mp
      apply List.find?_isSome.mpr
      exact ⟨first, List.mem_reverse.mpr (List.mem_of_find?_eq_some hfirst), sameKey_self hu⟩
    have hfound : ps.find? (fun p => isHeaderParameter p && isCalled t p) = some last := by
      rw [hmerged, find?_merged, ← hall, hfirst]
      exact hlast
    obtain ⟨x, hx, hkey, hvalue⟩ := find?_addParameters h hfree hfound
    have hsame : sameName first last = true := List.find?_some hlast
    exact ⟨first, last, x, hfirst, hlast, hx, (asText_congr hsame).trans hkey, hvalue, mem_own_iff hlast⟩

/-- A block whose headers are those of an operation. -/
def HasHeaders (spec : Value) (site : Site) (b : Block) : Prop :=
  ∃ given body r, (bodyOf spec site.operation).Yields (given, body) ∧ b.request = some r ∧
    HeadersOf given (headerParameters spec site.shared) (headerParameters spec site.parameters) r.headers

/-- A header parameter with an example. -/
def headerParameter (name value : Text) : Value :=
  .dict [(.str "name", .str name), (.str "in", .str "header"), (.str "example", .str value)]

/-- A path with a header parameter, and with an operation that has one with a name. -/
def headerPaths (name : Text) : List (Value × Value) :=
  [(.str "/a", .dict [(.str "parameters", .list [headerParameter "X-A" "path"]),
    (.str "get", .dict [(.str "parameters", .list [headerParameter name "operation"])])])]

/-- The specification with the path. -/
def headerSpec (name : Text) : Value := .dict [(.str "paths", .dict (headerPaths name))]

end HttpFile.Source.OpenApi
