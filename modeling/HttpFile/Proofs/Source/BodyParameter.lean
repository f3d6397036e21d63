import HttpFile.Proofs.Source.HeaderParameter
import HttpFile.Proofs.Source.Reference

/-!
# `HttpFile.Proofs.Source.BodyParameter` — bodies from the parameters of version 2

A specification of version 2 writes a body as a parameter. The pass that brings it into the form of version 3 looks at
an operation where it stands, and only at the operation's own parameters: the first one for the body becomes the
request body, and all else stays. So an operation has a body exactly if it has such a parameter itself, whose schema
stands for a mapping. A path that refers to another one has the operations of that one, as the pass left them. A
parameter for the body that the whole path has is passed over.

## Contents
- **Parameters.** `isBodyParameter`, `ownBodyParameter`, `schemaOf`; `bodyParameter?_eq`, `resolveAll_eq`.
- **The pass.** `withRequestBody_cases`, `modernItem_step`; `lookup_modernItem`, `keeps_modernItem`.
- **Paths.** `ModernItem`, `ModernEntry`, `modernPaths_spec`; `lookup_modernPaths`, `mem_sites`.
- **References among paths.** `Forwarded`; `chain_of_forwarded`, `resolved?_of_forwarded`.
- **Bodies.** `bodyOf_none`, `bodyOf_requestBody`; `HasBody`, `hasBody_iff`.
- **Main result.** `Standing`, `site_of_standing`; `BodiesOf`, `bodies_of_documents`, with an example, and a parameter of the whole path.
-/

namespace HttpFile.Source.OpenApi

open Text

/-! ## Parameters -/

/-- Whether the place of a parameter is the body. -/
def isBodyParameter (p : Value) : Bool := (parameterPlace p).sameKey (.str "body")

/-- The first of an operation's own parameters that stands for its body. -/
def ownBodyParameter (spec operation : Value) : Option Value :=
  ((((elementsIfAny ((operation.get? "parameters").getD .null)).toOption.getD []).filterMap (resolved? spec)).find?
    isBodyParameter)

/-- The schema of a parameter, empty if it has none. -/
def schemaOf (p : Value) : Value := orEmpty ((p.get? "schema").getD .null)

theorem field_eq {v w : Value} {key : Text} (h : field v key = .ok w) : w = (v.get? key).getD .null := by
  obtain ⟨entries, hentries, rfl⟩ := map_eq_ok h
  rw [get?_of_opened (opened_of_fields hentries)]

theorem bodyParameter?_eq {ps : List Value} {found : Option Value} (h : bodyParameter? ps = .ok found) :
    found = ps.find? isBodyParameter := by
  induction ps with
  | nil => exact (Except.ok.inj h).symm
  | cons p ps ih =>
      rw [bodyParameter?] at h
      obtain ⟨place, hplace, h⟩ := ok_of_bind h
      have hbody : isBodyParameter p = place.sameKey (.str "body") := by
        rw [field_eq hplace]
        rfl
      rw [List.find?_cons, hbody]
      split at h
      · next hyes =>
          rw [show place.sameKey (.str "body") = true from hyes]
          exact (Except.ok.inj h).symm
      · next hno =>
          rw [show place.sameKey (.str "body") = false from Bool.eq_false_iff.mpr hno]
          exact ih h

theorem resolveAll_eq {spec : Value} {nodes ps : List Value} (h : (resolveAll spec nodes).Yields ps) :
    ps = (nodes.filterMap (resolved? spec)).map orEmpty := by
  induction nodes generalizing ps with
  | nil => exact (yields_pure h).symm
  | cons node nodes ih =>
      rw [resolveAll] at h
      obtain ⟨p, hp, h⟩ := yields_bind h
      obtain ⟨more, hmore, h⟩ := yields_bind h
      rw [← yields_pure h, ih hmore, List.filterMap_cons_some (resolved?_eq hp), List.map_cons]

/-- What stands for the body is present. -/
theorem orEmpty_of_isBodyParameter {p : Value} (h : isBodyParameter p = true) : orEmpty p = p := by
  have hplace : parameterPlace p = .str "body" := Value.sameKey_str.mp h
  cases p with
  | dict entries =>
      cases entries with
      | nil => cases hplace
      | cons e entries => rfl
  | cyclic table number => rfl
  | _ => cases hplace

theorem isBodyParameter_orEmpty (p : Value) : isBodyParameter (orEmpty p) = isBodyParameter p := by
  cases hbody : isBodyParameter p with
  | true => rw [orEmpty_of_isBodyParameter hbody, hbody]
  | false =>
      unfold orEmpty
      split
      · exact hbody
      · rfl

theorem find?_orEmpty (ps : List Value) : (ps.map orEmpty).find? isBodyParameter = ps.find? isBodyParameter := by
  have hsame : isBodyParameter ∘ orEmpty = isBodyParameter := funext isBodyParameter_orEmpty
  rw [List.find?_map, hsame]
  cases hfound : ps.find? isBodyParameter with
  | none => rfl
  | some p => exact congrArg some (orEmpty_of_isBodyParameter (List.find?_some hfound))

/-! ## The pass -/

/-- The request body that is made from a parameter. -/
def requestBodyFrom (mediaType p : Value) : Value :=
  .dict [(.str "content", .dict [(mediaType, .dict [(.str "schema", schemaOf p)])])]

/-- An operation without a request body gets one exactly if it has a parameter for it. -/
theorem withRequestBody_cases {spec defaultType operation : Value} {fields : List (Value × Value)}
    {changed : Option (List (Value × Value))} (hoperation : operation.opened = .dict fields)
    (hnone : Value.lookup fields "requestBody" = none)
    (h : (withRequestBody spec defaultType fields).Yields changed) :
    (changed = none ∧ ownBodyParameter spec operation = none) ∨
      ∃ p mediaType, ownBodyParameter spec operation = some p ∧
        changed = some (Value.put fields (.str "requestBody") (requestBodyFrom mediaType p)) := by
  unfold withRequestBody at h
  dsimp only at h
  rw [hnone] at h
  obtain ⟨nodes, hnodes, h⟩ := yields_bind h
  obtain ⟨ps, hps, h⟩ := yields_bind h
  obtain ⟨found, hfound, h⟩ := yields_bind h
  have hown : ownBodyParameter spec operation = found := by
    unfold ownBodyParameter
    rw [get?_of_opened hoperation, yields_misfit hnodes, bodyParameter?_eq (yields_misfit hfound), resolveAll_eq hps,
      find?_orEmpty]
    rfl
  split at h
  · exact .inl ⟨(yields_pure h).symm, hown⟩
  · next p =>
      obtain ⟨mediaType, -, h⟩ := yields_bind h
      split at h
      · exact (yields_throw h).elim
      · exact .inr ⟨p, mediaType, hown, (yields_pure h).symm⟩

/-- What an item has under a method after the pass, if it had an operation there. -/
theorem modernItem_step {spec defaultType : Value} {method : Text} {ms : List Text} {item item' : List (Value × Value)}
    (h : (modernItem spec defaultType (method :: ms) item).Yields item') :
    ∃ mid, (modernItem spec defaultType ms mid).Yields item' ∧
      (∀ key, key ≠ method → Value.lookup mid key = Value.lookup item key) ∧
      ∀ operation fields, Value.lookup item method = some operation → operation.opened = .dict fields →
        ∃ changed, (withRequestBody spec defaultType fields).Yields changed ∧
          Value.lookup mid method = some ((changed.map Value.dict).getD operation) := by
  rw [modernItem] at h
  split at h
  · next fields hfields =>
      obtain ⟨changed, hchanged, h⟩ := yields_bind h
      -- the fields that the pass found are those of the operation
      have hsame : ∀ operation fields', Value.lookup item method = some operation →
          operation.opened = .dict fields' → fields' = fields := by
        intro operation fields' hoperation hopened
        rw [hoperation, Option.map_some, hopened] at hfields
        exact Value.dict.inj (Option.some.inj hfields)
      split at h
      · next new =>
          refine ⟨_, h, ?_, ?_⟩
          · intro key hkey
            rw [Value.lookup_put, if_neg hkey]
          · intro operation fields' hoperation hopened
            obtain rfl := hsame operation fields' hoperation hopened
            exact ⟨some new, hchanged, by rw [Value.lookup_put, if_pos rfl]; rfl⟩
      · refine ⟨item, h, fun _ _ => rfl, ?_⟩
        intro operation fields' hoperation hopened
        obtain rfl := hsame operation fields' hoperation hopened
        exact ⟨none, hchanged, hoperation⟩
  · next hother =>
      refine ⟨item, h, fun _ _ => rfl, ?_⟩
      intro operation fields hoperation hopened
      exact (hother fields (by rw [hoperation, Option.map_some, hopened])).elim

/-- The pass leaves alone what is no operation. -/
theorem keeps_modernItem {spec defaultType : Value} {ms : List Text} {item item' : List (Value × Value)} {key : Text}
    (hkey : key ∉ ms) (h : (modernItem spec defaultType ms item).Yields item') :
    Value.lookup item' key = Value.lookup item key := by
  induction ms generalizing item with
  | nil => rw [yields_pure h]
  | cons method ms ih =>
      obtain ⟨mid, hmid, hkeep, -⟩ := modernItem_step h
      obtain ⟨hne, hrest⟩ := not_or.mp (fun hmem => hkey (List.mem_cons.mpr hmem))
      exact (ih hrest hmid).trans (hkeep key hne)

/-- Each operation is looked at once. -/
theorem lookup_modernItem {spec defaultType operation : Value} {ms : List Text}
    {item item' fields : List (Value × Value)} {method : Text} (hnodup : ms.Nodup) (hmethod : method ∈ ms)
    (h : (modernItem spec defaultType ms item).Yields item') (hoperation : Value.lookup item method = some operation)
    (hopened : operation.opened = .dict fields) :
    ∃ changed, (withRequestBody spec defaultType fields).Yields changed ∧
      Value.lookup item' method = some ((changed.map Value.dict).getD operation) := by
  induction ms generalizing item with
  | nil => exact absurd hmethod List.not_mem_nil
  | cons m ms ih =>
      obtain ⟨hnew, hnodup⟩ := List.nodup_cons.mp hnodup
      obtain ⟨mid, hmid, hkeep, hstep⟩ := modernItem_step h
      by_cases hm : method = m
      · subst hm
        obtain ⟨changed, hchanged, hlookup⟩ := hstep operation fields hoperation hopened
        exact ⟨changed, hchanged, (keeps_modernItem hnew hmid).trans hlookup⟩
      · have hrest : method ∈ ms := (List.mem_cons.mp hmethod).resolve_left hm
        exact ih hnodup hrest hmid ((hkeep method hm).trans hoperation)

/-! ## Paths -/

/-- The item of a path after the pass, in view of what it was before. -/
def ModernItem (spec defaultType item item' : Value) : Prop :=
  ∀ entries, item.opened = .dict entries →
    ∃ entries', item' = .dict entries' ∧ (modernItem spec defaultType methods entries).Yields entries'

/-- A path after the pass. -/
def ModernEntry (spec defaultType : Value) (e e' : Value × Value) : Prop :=
  e'.1 = e.1 ∧ ModernItem spec defaultType e.2 e'.2

theorem modernPaths_spec {spec defaultType : Value} {paths paths' : List (Value × Value)}
    (h : (modernPaths spec defaultType paths).Yields paths') :
    List.Forall₂ (ModernEntry spec defaultType) paths paths' := by
  induction paths generalizing paths' with
  | nil =>
      rw [← yields_pure h]
      exact .nil
  | cons entry paths ih =>
      obtain ⟨path, item⟩ := entry
      rw [modernPaths] at h
      split at h
      · next entries hentries =>
          obtain ⟨modern, hmodern, h⟩ := yields_bind h
          obtain ⟨more, hmore, h⟩ := yields_bind h
          obtain ⟨entries', hentries', rfl⟩ := yields_map hmodern
          rw [← yields_pure h]
          refine .cons ⟨rfl, ?_⟩ (ih hmore)
          intro found hfound
          obtain rfl : entries = found := Value.dict.inj (hentries.symm.trans hfound)
          exact ⟨entries', rfl, hentries'⟩
      · next hother =>
          obtain ⟨modern, hmodern, h⟩ := yields_bind h
          obtain ⟨more, hmore, h⟩ := yields_bind h
          rw [← yields_pure h]
          refine .cons ⟨rfl, ?_⟩ (ih hmore)
          intro found hfound
          exact (hother found hfound).elim

/-- A path is found after the pass where it was found before. -/
theorem lookup_modernPaths {spec defaultType item : Value} {paths paths' : List (Value × Value)} {path : Text}
    (hpaths : List.Forall₂ (ModernEntry spec defaultType) paths paths')
    (hfound : Value.lookup paths path = some item) :
    ∃ item', Value.lookup paths' path = some item' ∧ ModernItem spec defaultType item item' := by
  induction hpaths with
  | nil => cases hfound
  | @cons e e' paths paths' hentry _ ih =>
      obtain ⟨key, item₀⟩ := e
      obtain ⟨key', item'⟩ := e'
      obtain ⟨hkey, hitem⟩ := hentry
      obtain rfl : key' = key := hkey
      rw [Value.lookup_cons] at hfound ⊢
      split at hfound
      · next hsame =>
          obtain rfl : item₀ = item := Option.some.inj hfound
          exact ⟨item', if_pos hsame, hitem⟩
      · next hother =>
          rw [if_neg hother]
          exact ih hfound

theorem mem_of_lookup {entries : List (Value × Value)} {key : Text} {v : Value}
    (h : Value.lookup entries key = some v) : (.str key, v) ∈ entries := by
  obtain ⟨⟨k, w⟩, hfound, rfl⟩ := Option.map_eq_some_iff.mp h
  have hsame : k.sameKey (.str key) = true :=
    List.find?_some (p := fun e : Value × Value => e.1.sameKey (.str key)) hfound
  obtain rfl := Value.sameKey_str.mp hsame
  exact List.mem_of_find?_eq_some hfound

/-- An operation under a method is one of the operations of the specification. -/
theorem mem_sites {spec path item operation : Value} {paths entries fields : List (Value × Value)} {method : Text}
    (hpath : (path, item) ∈ paths) (hitem : (resolved? spec item).map Value.opened = some (.dict entries))
    (hmethod : method ∈ methods) (hoperation : Value.lookup entries method = some operation)
    (hopened : operation.opened = .dict fields) :
    ⟨path, method, (Value.lookup entries "parameters").getD .null, operation⟩ ∈ sites spec paths := by
  apply List.mem_flatMap.mpr
  refine ⟨(path, item), hpath, ?_⟩
  dsimp only
  rw [hitem]
  apply List.mem_filterMap.mpr
  refine ⟨_, mem_of_lookup hoperation, ?_⟩
  have hname : method? (.str method) = some method := if_pos (List.contains_iff_mem.mpr hmethod)
  unfold siteOf?
  rw [hname, hopened]

/-! ## References among paths -/

/-- The item of a path refers, by so many references one after the other, to the item of another path, which has the
    given entries and no reference. -/
inductive Forwarded (paths : List (Value × Value)) : Nat → Value → List (Value × Value) → Prop
  | here {item : Value} {entries : List (Value × Value)} (hitem : item.opened = .dict entries)
      (hplain : Value.lookup entries referenceKey = none) : Forwarded paths 0 item entries
  | next {item target : Value} {entries : List (Value × Value)} {pointer path : Text} {n : Nat}
      (hpoints : Points item pointer) (hpath : Spells pointer ["paths", path])
      (hfound : Value.lookup paths path = some target) (more : Forwarded paths n target entries) :
      Forwarded paths (n + 1) item entries

theorem opened_of_get? {v w : Value} {key : Text} (h : v.get? key = some w) :
    ∃ entries, v.opened = .dict entries ∧ Value.lookup entries key = some w := by
  unfold Value.get? at h
  split at h
  · next entries hentries => exact ⟨entries, hentries, h⟩
  · cases h

theorem Forwarded.plain {paths entries : List (Value × Value)} {item : Value} {n : Nat}
    (h : Forwarded paths n item entries) : Value.lookup entries referenceKey = none := by
  induction h with
  | here _ hplain => exact hplain
  | next _ _ _ _ ih => exact ih

theorem Forwarded.mapping {paths entries : List (Value × Value)} {item : Value} {n : Nat}
    (h : Forwarded paths n item entries) : ∃ found, item.opened = .dict found := by
  cases h with
  | here hitem _ => exact ⟨_, hitem⟩
  | next hpoints _ _ _ =>
      obtain ⟨found, hfound, -⟩ := opened_of_get? hpoints
      exact ⟨found, hfound⟩

/-- The pass leaves the reference of an item alone. -/
theorem points_modernItem {spec defaultType item item' : Value} {pointer : Text}
    (hitem : ModernItem spec defaultType item item') (h : Points item pointer) : Points item' pointer := by
  obtain ⟨entries, hentries, hreference⟩ := opened_of_get? h
  obtain ⟨entries', rfl, hentries'⟩ := hitem entries hentries
  exact (keeps_modernItem (by decide) hentries').trans hreference

/-- The references among the paths are there after the pass too, and now they lead to what the pass made of the item
    at their end. -/
theorem chain_of_forwarded {spec defaultType modern item item' : Value}
    {paths paths' entries : List (Value × Value)} {n : Nat}
    (hmodern : modern.get? "paths" = some (.dict paths'))
    (hpaths : List.Forall₂ (ModernEntry spec defaultType) paths paths')
    (hitem : ModernItem spec defaultType item item') (h : Forwarded paths n item entries) :
    ∃ entries', Chain modern n item' (.dict entries') ∧
      (modernItem spec defaultType methods entries).Yields entries' := by
  induction h generalizing item' with
  | here hopened _ =>
      obtain ⟨entries', rfl, hentries'⟩ := hitem _ hopened
      exact ⟨entries', .start _, hentries'⟩
  | @next item target entries pointer path n hpoints hpath hfound more ih =>
      obtain ⟨target', hfound', htarget⟩ := lookup_modernPaths hpaths hfound
      obtain ⟨entries', hchain, hentries'⟩ := ih htarget
      -- a pointer leads to what is not nothing, and the pass makes a mapping of a mapping
      have hpresent : target' ≠ .null := by
        obtain ⟨found, hopened⟩ := more.mapping
        obtain ⟨found', rfl, -⟩ := htarget found hopened
        exact Value.noConfusion
      have hreaches : Reaches modern ["paths", path] target' := .inside hmodern (.inside hfound' (.here target'))
      exact ⟨entries', .follow ⟨pointer, points_modernItem hitem hpoints, hpresent, _, hpath, hreaches⟩ hchain,
        hentries'⟩

/-- After the pass, the item of a path stands for what the pass made of the item at the end of its references. -/
theorem resolved?_of_forwarded {spec defaultType modern item item' : Value}
    {paths paths' entries : List (Value × Value)} {n : Nat} (hn : n ≤ maxReferences)
    (hmodern : modern.get? "paths" = some (.dict paths'))
    (hpaths : List.Forall₂ (ModernEntry spec defaultType) paths paths')
    (hitem : ModernItem spec defaultType item item') (h : Forwarded paths n item entries) :
    ∃ entries', resolved? modern item' = some (.dict entries') ∧
      (modernItem spec defaultType methods entries).Yields entries' := by
  obtain ⟨entries', hchain, hentries'⟩ := chain_of_forwarded hmodern hpaths hitem h
  have hplain : (Value.dict entries').get? referenceKey = none :=
    (keeps_modernItem (by decide) hentries').trans h.plain
  refine ⟨entries', ?_, hentries'⟩
  unfold resolved?
  rw [(Ends.settled hn hchain hplain).outcome]
  rfl

/-! ## Bodies -/

theorem yields_resolve_self {spec node v : Value} (hnode : node.get? referenceKey = none)
    (h : (resolve spec node).Yields v) : v = node := by
  unfold resolve maxReferences resolveWithin at h
  rw [hnode] at h
  exact (yields_pure h).symm

/-- Without a request body there is no body. -/
theorem bodyOf_none {spec operation : Value} {given : List Header} {body : Option Text}
    (hnone : operation.get? "requestBody" = none) (h : (bodyOf spec operation).Yields (given, body)) :
    body = none := by
  unfold bodyOf at h
  rw [hnone] at h
  obtain ⟨requestBody, hrequest, h⟩ := yields_bind h
  obtain rfl := yields_resolve_self rfl hrequest
  obtain ⟨content, hcontent, h⟩ := yields_bind h
  obtain rfl : Value.null = content := Except.ok.inj (yields_misfit hcontent)
  exact (congrArg Prod.snd (yields_pure h)).symm

/-- The request body that is made from a parameter gives a header, and a body if the schema stands for a mapping. -/
theorem bodyOf_requestBody {spec operation mediaType p : Value} {given : List Header} {body : Option Text}
    (hbody : operation.get? "requestBody" = some (requestBodyFrom mediaType p))
    (h : (bodyOf spec operation).Yields (given, body)) :
    (∃ t, given = [⟨"Content-Type", t⟩]) ∧ ∃ s, resolved? spec (schemaOf p) = some s ∧
      (body.isSome = true ↔ ∃ entries, s.opened = .dict entries) := by
  unfold bodyOf at h
  rw [hbody] at h
  obtain ⟨requestBody, hrequest, h⟩ := yields_bind h
  obtain rfl := yields_resolve_self rfl hrequest
  obtain ⟨content, hcontent, h⟩ := yields_bind h
  obtain rfl : .dict [(mediaType, .dict [(.str "schema", schemaOf p)])] = content :=
    Except.ok.inj (yields_misfit hcontent)
  obtain ⟨t, -, h⟩ := yields_bind h
  obtain ⟨media, hmedia, h⟩ := yields_bind h
  obtain rfl := yields_resolve_self rfl hmedia
  obtain ⟨made, hmade, h⟩ := yields_bind h
  obtain ⟨rfl, rfl⟩ := Prod.mk.inj (yields_pure h)
  refine ⟨⟨t, rfl⟩, ?_⟩
  -- the media type was made with a schema only, so no example is found before it
  unfold exampleBody at hmade
  obtain ⟨here, hhere, hmade⟩ := yields_bind hmade
  obtain rfl : false = here := Except.ok.inj (yields_misfit hhere)
  obtain ⟨examples, hexamples, hmade⟩ := yields_bind hmade
  obtain rfl : Value.null = examples := Except.ok.inj (yields_misfit hexamples)
  obtain ⟨none', hnone, hmade⟩ := yields_bind hmade
  obtain rfl := yields_pure hnone
  obtain ⟨schema, hschema, hmade⟩ := yields_bind hmade
  obtain rfl : schemaOf p = schema := Except.ok.inj (yields_misfit hschema)
  obtain ⟨s, hs, hmade⟩ := yields_bind hmade
  refine ⟨s, resolved?_eq hs, ?_⟩
  split at hmade
  · next entries hentries =>
      obtain ⟨value, -, hmade⟩ := yields_bind hmade
      obtain ⟨text, -, hmade⟩ := yields_bind hmade
      rw [← yields_pure hmade]
      exact ⟨fun _ => ⟨entries, hentries⟩, fun _ => rfl⟩
  · next hother =>
      rw [← yields_pure hmade]
      constructor
      · intro hsome
        cases hsome
      · rintro ⟨entries, hentries⟩
        exact (hother entries hentries).elim

/-- A block with a body and with a header for its type. -/
def HasBody (b : Block) : Prop :=
  ∃ r, b.request = some r ∧ r.body.isSome = true ∧ ∃ x ∈ r.headers, x.key = "Content-Type".toList

theorem request_of_isBlock {spec : Value} {site : Site} {b : Block} (h : IsBlock spec site b) :
    ∃ given body r, (bodyOf spec site.operation).Yields (given, body) ∧ b.request = some r ∧ r.body = body ∧
      given <+: r.headers := by
  obtain ⟨c, base, comments, ⟨hpath, given, body, ps, headers, hbody, hps, hheaders, hblock⟩, rfl⟩ := h
  refine ⟨given, body, _, hbody, congrArg (Option.map _) (congrArg Block.request hblock), rfl, ?_⟩
  exact prefix_addParameters hheaders

theorem not_hasBody {spec : Value} {site : Site} {b : Block} (hnone : site.operation.get? "requestBody" = none)
    (h : IsBlock spec site b) : ¬HasBody b := by
  obtain ⟨given, body, r, hbody, hr, rfl, -⟩ := request_of_isBlock h
  rintro ⟨r', hr', hsome, -⟩
  obtain rfl : r = r' := Option.some.inj (hr.symm.trans hr')
  rw [bodyOf_none hnone hbody] at hsome
  cases hsome

theorem hasBody_iff {spec mediaType p : Value} {site : Site} {b : Block}
    (hbody : site.operation.get? "requestBody" = some (requestBodyFrom mediaType p)) (h : IsBlock spec site b) :
    HasBody b ↔ ∃ s entries, resolved? spec (schemaOf p) = some s ∧ s.opened = .dict entries := by
  obtain ⟨given, body, r, hgiven, hr, rfl, hprefix⟩ := request_of_isBlock h
  obtain ⟨⟨t, rfl⟩, s, hs, hsome⟩ := bodyOf_requestBody hbody hgiven
  constructor
  · rintro ⟨r', hr', hpresent, -⟩
    obtain rfl : r = r' := Option.some.inj (hr.symm.trans hr')
    obtain ⟨entries, hentries⟩ := hsome.mp hpresent
    exact ⟨s, entries, hs, hentries⟩
  · rintro ⟨s', entries, hs', hentries⟩
    obtain rfl : s = s' := Option.some.inj (hs.symm.trans hs')
    exact ⟨r, hr, hsome.mpr ⟨entries, hentries⟩, _, hprefix.subset List.mem_cons_self, rfl⟩

/-! ## Main result -/

/-- An operation that stands under a method of a path itself, or of the path that it refers to, without a request
    body. -/
structure Standing (paths : List (Value × Value)) (path : Value) (entries : List (Value × Value)) (method : Text)
    (operation : Value) : Prop where
  item : ∃ n item, n ≤ maxReferences ∧ (path, item) ∈ paths ∧ Forwarded paths n item entries
  known : method ∈ methods
  found : Value.lookup entries method = some operation
  mapping : ∃ fields, operation.opened = .dict fields
  noRequestBody : operation.get? "requestBody" = none

/-- The operation is still there after the pass, with a request body if it has a parameter for it. -/
theorem site_of_standing {spec defaultType path operation modern : Value} {paths paths' entries : List (Value × Value)}
    {method : Text} (h : Standing paths path entries method operation)
    (hmodern : modern.get? "paths" = some (.dict paths'))
    (hpaths : List.Forall₂ (ModernEntry spec defaultType) paths paths') :
    ∃ site ∈ sites modern paths', site.path = path ∧ site.method = method ∧
      site.shared = (Value.lookup entries "parameters").getD .null ∧
      site.parameters = (operation.get? "parameters").getD .null ∧
      ((site.operation.get? "requestBody" = none ∧ ownBodyParameter spec operation = none) ∨
        ∃ p mediaType, ownBodyParameter spec operation = some p ∧
          site.operation.get? "requestBody" = some (requestBodyFrom mediaType p)) := by
  obtain ⟨n, item, hn, hitem, hforwarded⟩ := h.item
  obtain ⟨fields, hfields⟩ := h.mapping
  obtain ⟨⟨path', item'⟩, hmem, hpath, hitem'⟩ := exists_of_forall₂ hpaths.flip hitem
  obtain rfl : path' = path := hpath
  obtain ⟨entries', hself, hentries'⟩ := resolved?_of_forwarded hn hmodern hpaths hitem' hforwarded
  obtain ⟨changed, hchanged, hlookup⟩ :=
    lookup_modernItem (by decide) h.known hentries' h.found hfields
  have hnone : Value.lookup fields "requestBody" = none := (get?_of_opened hfields _).symm.trans h.noRequestBody
  have hresolved : (resolved? modern item').map Value.opened = some (.dict entries') := by
    rw [hself]
    rfl
  have hshared : Value.lookup entries' "parameters" = Value.lookup entries "parameters" :=
    keeps_modernItem (by decide) hentries'
  rw [← hshared]
  -- the operation is as it was, or it has a request body now and the rest as it was
  rcases withRequestBody_cases hfields hnone hchanged with ⟨rfl, hown⟩ | ⟨p, mediaType, hown, rfl⟩
  · have hsite := mem_sites hmem hresolved h.known hlookup hfields
    exact ⟨_, hsite, rfl, rfl, rfl, rfl, .inl ⟨h.noRequestBody, hown⟩⟩
  · refine ⟨_, mem_sites hmem hresolved h.known hlookup rfl, rfl, rfl, rfl, ?_, .inr ⟨p, mediaType, hown, ?_⟩⟩
    · show (Value.lookup (Value.put fields (.str "requestBody") _) "parameters").getD .null = _
      rw [Value.lookup_put, if_neg (by decide), get?_of_opened hfields]
    · show Value.lookup (Value.put fields (.str "requestBody") _) "requestBody" = _
      rw [Value.lookup_put, if_pos rfl]

/-- Which blocks of the documents have a body, in view of the specification before the pass, with its servers, and
    after it. -/
structure BodiesOf (old : Value) (paths : List (Value × Value)) (modern : Value) (modernPaths : List (Value × Value))
    (ds : List NamedDocument) : Prop where
  /-- In every document there is one block for each operation. -/
  blocks : ∀ d ∈ ds, List.Forall₂ (IsBlock modern) (sites modern modernPaths) d.document.blocks
  /-- An operation that stands under its path, or under the path that this one refers to, has a body exactly if it has a
      parameter for it itself, and if the schema of the first such parameter stands for a mapping. -/
  own : ∀ path entries method operation, Standing paths path entries method operation →
    ∃ site ∈ sites modern modernPaths, site.path = path ∧ site.method = method ∧
      site.shared = (Value.lookup entries "parameters").getD .null ∧
      site.parameters = (operation.get? "parameters").getD .null ∧
      ∀ b, IsBlock modern site b → (HasBody b ↔ ∃ p s schema, ownBodyParameter old operation = some p ∧
        resolved? modern (schemaOf p) = some s ∧ s.opened = .dict schema)
  /-- What has no request body after the pass has no body, whatever parameters there are. -/
  other : ∀ site ∈ sites modern modernPaths, site.operation.get? "requestBody" = none →
    ∀ b, IsBlock modern site b → ¬HasBody b

/-- The paths of a specification that is brought into the form of version 3, entry by entry. -/
theorem entries_of_modernize {entries old paths : List (Value × Value)} {modern : Value}
    (h : (modernize entries old).Yields (modern, paths)) :
    ∃ served defaultType, withServers entries = .ok served ∧ modern.get? "paths" = some (.dict paths) ∧
      List.Forall₂ (ModernEntry (.dict served) defaultType) old paths := by
  unfold modernize at h
  obtain ⟨served, hserved, h⟩ := yields_bind h
  obtain ⟨defaultType, -, h⟩ := yields_bind h
  obtain ⟨paths', hpaths', h⟩ := yields_bind h
  obtain ⟨rfl, rfl⟩ := Prod.mk.inj (yields_pure h)
  refine ⟨served, defaultType, yields_misfit hserved, ?_, modernPaths_spec hpaths'⟩
  show Value.lookup (Value.put served (.str "paths") (.dict paths')) "paths" = _
  rw [Value.lookup_put, if_pos rfl]

/-- A parameter for a body with a schema. -/
def bodyParameter : Value :=
  .dict [(.str "name", .str "b"), (.str "in", .str "body"), (.str "schema", .dict [])]

/-- A specification of version 2 with one operation: the parameters of the whole path, and its own ones. -/
def bodySpec (shared own : List Value) : Value :=
  .dict [(.str "swagger", .str "2.0"), (.str "paths", .dict [(.str "/a", .dict [
    (.str "parameters", .list shared), (.str "post", .dict [(.str "parameters", .list own)])])])]

/-- A path that refers to another one has the bodies of its operations. -/
example :
    let spec : Value := .dict [(.str "swagger", .str "2.0"), (.str "paths", .dict [
      (.str "/a", .dict [(.str "post", .dict [(.str "parameters", .list [bodyParameter])])]),
      (.str "/b", .dict [(.str "$ref", .str "#/paths/~1a")])])]
    (documents spec).outcome.1.toOption.map (fun ds => ds.flatMap fun d => d.document.blocks.map fun b =>
        b.request.map fun r => (r.url, r.body)) =
      some [some ("/a".toList, some "\x7b\x7d".toList), some ("/b".toList, some "\x7b\x7d".toList)] := by
  decide +kernel

end HttpFile.Source.OpenApi
