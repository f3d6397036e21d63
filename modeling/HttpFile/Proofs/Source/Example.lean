import HttpFile.Proofs.Body.FormatJson
import HttpFile.Source.OpenApi.Example

/-!
# `HttpFile.Proofs.Source.Example` — example bodies are in canonical form

The body that is made up for an operation is JSON, laid out as the formatter lays it out. So formatting it has
nothing to do: what is written for data that JSON can hold says those data, no key comes again in it, and no
part of it stands for a placeholder, whatever its texts are. A text alone is the exception, since it is taken
for a body as it stands. An integer with more digits than are converted is not written, and nothing around it is.

## Contents
- **Data of JSON.** `IsJson`, `HasLong`.
- **Data that are not written.** `writeAt?_hasLong`, `hurdles_isJson`.
- **Templates.** `Written`: the template without holes that is written for data; `Written.scalar`,
  `exists_items`, `exists_entries`; `exists_written`.
- **Main result.** `formatJson_dump`, and an example.
-/

namespace HttpFile

open Text Json Template Body

/-! ## Data of JSON -/

/-- Data that JSON can hold, with texts that are different for the keys of an object. A number with a binary
    point is one of the format; of what is not a number the payload does not count. -/
inductive IsJson : Value → Prop
  | null : IsJson .null
  | bool (b : Bool) : IsJson (.bool b)
  | int (n : Int) : IsJson (.int n)
  | float {x : Binary64} (hx : (x.withPayload 0).Readable) : IsJson (.float x)
  | str (t : Text) : IsJson (.str t)
  | list {items : List Value} (hitems : ∀ v ∈ items, IsJson v) : IsJson (.list items)
  | dict {entries : List (Value × Value)} (hkeys : ∀ e ∈ entries, ∃ t, e.1 = .str t)
      (hdistinct : entries.Pairwise fun e e' => e.1 ≠ e'.1) (hvalues : ∀ e ∈ entries, IsJson e.2) :
      IsJson (.dict entries)

/-- An integer with more digits than are converted stands in data. -/
inductive HasLong : Value → Prop
  | int {n : Int} (hn : isShort (.int n) = false) : HasLong (.int n)
  | list {items : List Value} {v : Value} (hv : v ∈ items) (h : HasLong v) : HasLong (.list items)
  | dict {entries : List (Value × Value)} {e : Value × Value} (he : e ∈ entries) (h : HasLong e.2) :
      HasLong (.dict entries)

/-! ## Data that are not written -/

theorem writeItems?_eq_none {style : Style} {depth : Nat} {items : List Value} {v : Value} (hv : v ∈ items)
    (h : writeAt? style depth v = none) : writeItems? style depth items = none := by
  induction items with
  | nil => cases hv
  | cons w items ih =>
      rw [writeItems?]
      rcases List.mem_cons.mp hv with rfl | hv
      · rw [h]
      · rw [ih hv]
        cases writeAt? style depth w <;> rfl

theorem writeEntries?_eq_none {style : Style} {depth : Nat} {entries : List (Value × Value)} {e : Value × Value}
    (he : e ∈ entries) (h : writeAt? style depth e.2 = none) : writeEntries? style depth entries = none := by
  induction entries with
  | nil => cases he
  | cons entry entries ih =>
      rw [writeEntries?]
      rcases List.mem_cons.mp he with rfl | he
      · rw [h]
        cases keyText? e.1 <;> rfl
      · rw [ih he]
        cases keyText? entry.1 <;> cases writeAt? style depth entry.2 <;> rfl

/-- Data with such an integer are not written. -/
theorem writeAt?_hasLong {v : Value} (h : HasLong v) (style : Style) (depth : Nat) : writeAt? style depth v = none := by
  induction h generalizing depth with
  | int hn =>
      rw [writeAt?, integerText?, hn]
      rfl
  | list hv _ ih => rw [writeAt?, writeItems?_eq_none hv (ih _), Option.map_none]
  | dict he _ ih => rw [writeAt?, writeEntries?_eq_none he (ih _), Option.map_none]

theorem hurdlesAll_eq (items : List Value) : hurdlesAll items = items.flatMap hurdles := by
  induction items with
  | nil => rw [hurdlesAll]; rfl
  | cons v items ih => rw [hurdlesAll, ih, List.flatMap_cons]

theorem hurdlesEntries_eq (entries : List (Value × Value)) :
    hurdlesEntries entries = entries.flatMap fun e => hurdlesKey e.1 ++ hurdles e.2 := by
  induction entries with
  | nil => rw [hurdlesEntries]; rfl
  | cons e entries ih =>
      obtain ⟨k, v⟩ := e
      rw [hurdlesEntries, ih, List.flatMap_cons]

/-- Nothing but such an integer keeps data of JSON from being written. -/
theorem hurdles_isJson {v : Value} (h : IsJson v) :
    (∀ x ∈ hurdles v, x = .obstacle .digits) ∧ (HasLong v → .obstacle .digits ∈ hurdles v) := by
  induction h with
  | null => exact ⟨by simp [hurdles], fun h => by cases h⟩
  | bool b => exact ⟨by simp [hurdles], fun h => by cases h⟩
  | float hx => exact ⟨by simp [hurdles], fun h => by cases h⟩
  | str t => exact ⟨by simp [hurdles], fun h => by cases h⟩
  | int n =>
      rw [hurdles, hurdlesInteger, integerText?]
      refine ⟨fun x hx => ?_, ?_⟩
      · split at hx
        · cases hx
        · exact List.mem_singleton.mp hx
      · rintro ⟨hn⟩
        rw [hn]
        exact List.mem_singleton_self _
  | @list items hitems ih =>
      rw [hurdles, hurdlesAll_eq]
      refine ⟨fun x hx => ?_, ?_⟩
      · obtain ⟨v, hv, hin⟩ := List.mem_flatMap.mp hx
        exact (ih v hv).1 x hin
      · rintro (_ | ⟨hv, h⟩)
        exact List.mem_flatMap.mpr ⟨_, hv, (ih _ hv).2 h⟩
  | @dict entries hkeys hdistinct hvalues ih =>
      rw [hurdles, hurdlesEntries_eq]
      refine ⟨fun x hx => ?_, ?_⟩
      · obtain ⟨e, he, hin⟩ := List.mem_flatMap.mp hx
        obtain ⟨t, ht⟩ := hkeys e he
        rw [ht] at hin
        exact (ih e he).1 x hin
      · rintro (_ | _ | ⟨he, h⟩)
        exact List.mem_flatMap.mpr ⟨_, he, List.mem_append_right _ ((ih _ he).2 h)⟩

/-! ## Templates -/

/-- What is written for data is a template in which no key comes again and no text has a half. -/
def Written (v : Value) (d : Template Empty) : Prop :=
  d.Distinct ∧ (∀ s ∈ d.texts, ∃ t, s = letters t) ∧ ∀ depth,
    writeAt? .indented depth v = some (written .indented depth d)

theorem Written.scalar {v w : Value} {u r : Text} (hshort : isShort w = true) (hscalar : scalar? u = some (w, r))
    (hsame : ∀ depth, writeAt? .indented depth v = writeAt? .indented depth w) :
    Written v (.scalar (Scalar.ofRead hshort hscalar)) := by
  refine ⟨Distinct.scalar _, by simp [texts, leaves], ?_⟩
  intro depth
  rw [hsame]
  exact writeAt?_written .indented (.scalar (Scalar.ofRead hshort hscalar)) depth

theorem exists_items {items : List Value} (h : ∀ v ∈ items, ∃ d, Written v d) :
    ∃ ds : List (Template Empty), (∀ d ∈ ds, d.Distinct ∧ ∀ s ∈ d.texts, ∃ t, s = letters t) ∧
      ∀ depth, writeItems? .indented depth items = some (ds.map (written .indented depth)) := by
  induction items with
  | nil =>
      refine ⟨[], by simp, ?_⟩
      intro depth
      rw [writeItems?]
      rfl
  | cons v items ih =>
      obtain ⟨d, hd, htexts, hv⟩ := h v List.mem_cons_self
      obtain ⟨ds, hds, hitems⟩ := ih fun w hw => h w (List.mem_cons_of_mem v hw)
      refine ⟨d :: ds, List.forall_mem_cons.mpr ⟨⟨hd, htexts⟩, hds⟩, ?_⟩
      intro depth
      rw [writeItems?, hv, hitems]
      rfl

/-- The template of an entry has the key of the entry, so different keys stay different. -/
theorem exists_entries {entries : List (Value × Value)} (hkeys : ∀ e ∈ entries, ∃ t, e.1 = .str t)
    (hdistinct : entries.Pairwise fun e e' => e.1 ≠ e'.1) (h : ∀ e ∈ entries, ∃ d, Written e.2 d) :
    ∃ es : List (Key Empty × Template Empty),
      (∀ e ∈ es, ∃ t, e.1 = .text (letters t) ∧ ∃ entry ∈ entries, entry.1 = .str t) ∧
      es.Pairwise Apart ∧ (∀ e ∈ es, e.2.Distinct ∧ ∀ s ∈ e.2.texts, ∃ t, s = letters t) ∧
      ∀ depth, writeEntries? .indented depth entries = some (es.map (writtenEntry .indented depth)) := by
  induction entries with
  | nil =>
      refine ⟨[], by simp, List.Pairwise.nil, by simp, ?_⟩
      intro depth
      rw [writeEntries?]
      rfl
  | cons entry entries ih =>
      obtain ⟨k, v⟩ := entry
      obtain ⟨t, rfl⟩ : ∃ t, k = .str t := hkeys _ List.mem_cons_self
      obtain ⟨hne, hrest⟩ := List.pairwise_cons.mp hdistinct
      obtain ⟨d, hd, htexts, hv⟩ := h _ List.mem_cons_self
      obtain ⟨es, hes, hapart, hvalues, hentries⟩ := ih
        (fun e he => hkeys e (List.mem_cons_of_mem _ he)) hrest (fun e he => h e (List.mem_cons_of_mem _ he))
      refine ⟨(.text (letters t), d) :: es, ?_, ?_, List.forall_mem_cons.mpr ⟨⟨hd, htexts⟩, hvalues⟩, ?_⟩
      · intro e he
        rcases List.mem_cons.mp he with rfl | he
        · exact ⟨t, rfl, _, List.mem_cons_self, rfl⟩
        · obtain ⟨u, hu, entry, hentry, hkey⟩ := hes e he
          exact ⟨u, hu, entry, List.mem_cons_of_mem _ hentry, hkey⟩
      · -- the keys of the templates are those of the entries
        apply List.pairwise_cons.mpr
        refine ⟨?_, hapart⟩
        intro e he
        obtain ⟨u, hu, entry, hentry, hkey⟩ := hes e he
        have htu : t ≠ u := by
          rintro rfl
          exact hne entry hentry hkey.symm
        show Key.same (.text (letters t)) e.1 = false
        rw [hu]
        exact decide_eq_false fun h => htu (letters_injective h)
      · intro depth
        rw [writeEntries?, hv, hentries, List.map_cons]
        rfl

/-- **What is written for data of JSON is a template without holes in which no key comes again**, unless an integer has
    too many digits. -/
theorem exists_written {v : Value} (h : IsJson v) (hshort : ¬HasLong v) : ∃ d, Written v d := by
  induction h with
  | null =>
      have hnull : scalar? "null" = some (.null, []) := rfl
      exact ⟨_, .scalar rfl hnull fun _ => rfl⟩
  | bool b =>
      have hbool : scalar? (if b then "true".toList else "false".toList) = some (.bool b, []) := by
        cases b <;> rfl
      exact ⟨_, .scalar rfl hbool fun _ => rfl⟩
  | int n =>
      have hn : isShort (.int n) = true := by
        cases hn : isShort (.int n) with
        | true => rfl
        | false => exact absurd (HasLong.int hn) hshort
      exact ⟨_, .scalar hn (scalar?_ofInt n) fun _ => rfl⟩
  | @float x hx =>
      refine ⟨_, .scalar rfl (scalar?_write hx) ?_⟩
      intro depth
      -- every value that is not a number is written as the same word
      cases x <;> rfl
  | str t =>
      refine ⟨.text (letters t), Distinct.text _, by simp [texts, leaves], ?_⟩
      intro depth
      rw [writeAt?, written_text]
  | list hitems ih =>
      obtain ⟨ds, hds, hwrite⟩ := exists_items fun v hv => ih v hv fun hlong => hshort (.list hv hlong)
      refine ⟨.list ds, Distinct.list fun d hd => (hds d hd).1, ?_, ?_⟩
      · intro s hs
        obtain ⟨d, hd, hleaf⟩ := mem_leaves_list.mp (mem_texts.mp hs)
        exact (hds d hd).2 s (mem_texts.mpr hleaf)
      · intro depth
        rw [writeAt?, hwrite, written_list]
        rfl
  | dict hkeys hdistinct hvalues ih =>
      obtain ⟨es, hes, hapart, hwhole, hwrite⟩ := exists_entries hkeys hdistinct fun e he =>
        ih e he fun hlong => hshort (.dict he hlong)
      refine ⟨.dict es, Distinct.dict hapart fun e he => (hwhole e he).1, ?_, ?_⟩
      · intro s hs
        obtain ⟨e, he, hleaf | hleaf⟩ := mem_leaves_dict.mp (mem_texts.mp hs)
        · obtain ⟨t, ht, -⟩ := hes e he
          rw [ht] at hleaf
          exact ⟨t, Sum.inr.inj hleaf⟩
        · exact (hwhole e he).2 s (mem_texts.mpr hleaf)
      · intro depth
        rw [writeAt?, hwrite, written_dict]
        rfl

/-! ## Main result -/

/-- A template without holes is rendered as it is written. -/
theorem render_whole (d : Template Empty) : render (d.map Empty.elim) = written .indented 0 d := by
  have hholes : (fun a : Empty => (Sum.inr (Empty.elim a) : Wide ⊕ Text).elim (writeString false) letters) =
      Empty.elim := by
    funext a
    exact a.elim
  rw [render, Template.map, filled_exchange, hholes, written_indented]

theorem holes_whole (d : Template Empty) : (d.map (Empty.elim : Empty → Text)).holes = [] := by
  apply List.eq_nil_iff_forall_not_mem.mpr
  intro token htoken
  rw [holes_map] at htoken
  obtain ⟨a, -, -⟩ := List.mem_map.mp htoken
  exact a.elim

/-- A template whose texts have no halves is written as a text. -/
theorem exists_letters_whole {d : Template Empty} (h : ∀ s ∈ d.texts, ∃ t, s = letters t) :
    ∃ t, written .indented 0 d = letters t := by
  have hfilled := exists_letters_filled (g := Empty.elim) (w := word 0 d) fun x hx => by
    obtain ⟨s, hs, hin⟩ := half_mem_word hx
    obtain ⟨t, rfl⟩ := h s hs
    exact inr_notMem_letters x t hin
  have hholes : (fun a : Empty => (letters (Empty.elim a) : Wide)) = Empty.elim := by
    funext a
    exact a.elim
  rwa [hholes, ← written_indented] at hfilled

namespace Source.OpenApi

/-- **The body that is made up for data of JSON is in canonical form.** Unless the data are a text alone,
    formatting the body gives it back, and nothing in it is taken for a placeholder. There is a body unless an
    integer has more digits than are converted. -/
theorem formatJson_dump {v : Value} (hv : IsJson v) (hs : v.string? = none) :
    (¬HasLong v → ∃ t, dump v = .ok t ∧ formatJson t = .ok (letters t) ∧ (Guard.of t).placeholders = []) ∧
      (HasLong v → dump v = .error .digits) := by
  have hdump : dump v = jsonText .indented v := by
    unfold dump
    rw [hs]
  rw [hdump]
  refine ⟨fun hshort => ?_, fun hlong => ?_⟩
  · obtain ⟨d, hdistinct, htexts, hwrite⟩ := exists_written hv hshort
    obtain ⟨t, ht⟩ := exists_letters_whole htexts
    have hjson : jsonText .indented v = .ok t := by
      unfold jsonText
      rw [write?, hwrite, ht]
      exact congrArg Except.ok (readable_letters t)
    -- the text says its template, which has no holes
    have hrender : render (d.map Empty.elim) = letters t := (render_whole d).trans ht
    have hholes : ∀ token ∈ (d.map (Empty.elim : Empty → Text)).holes, IsToken token := by
      rw [holes_whole]
      simp
    have hsays : Denotes atoms t (d.map Empty.elim) := denotes_of_render hholes hrender
    have hsettled : (d.map (Empty.elim : Empty → Text)).settled = d.map Empty.elim := by
      rw [settled_map, hdistinct.settled_eq]
    refine ⟨t, hjson, ?_, ?_⟩
    · rw [formatJson_of_denotes hsays (by rw [hsettled]; exact unmarked_of_render hrender), hsettled, hrender]
    · have hnone : labels t = [] := by
        apply List.map_eq_nil_iff.mp
        exact (unquoted_of_denotes hsays).trans (holes_whole d)
      rw [guard_of, hnone]
      rfl
  · obtain ⟨honly, hin⟩ := hurdles_isJson hv
    have hobstacle : obstacle? v = some .digits := by
      unfold obstacle?
      cases hhurdles : hurdles v with
      | nil =>
          rw [hhurdles] at hin
          cases hin hlong
      | cons x more =>
          rw [hhurdles] at honly
          rw [honly x List.mem_cons_self]
          rfl
    unfold jsonText
    rw [write?, writeAt?_hasLong hlong, hobstacle]

/-- Data with a placeholder, quotes and a key without letters among the texts, with one and a half, and with
    nothing in a list and in an object. -/
def richData : Value :=
  .dict [(.str "\x7b\x7ba\x7d\x7d", .list [.str "\"\"\"", .float (.finite false 6755399441055744 (-52)), .dict []]),
    (.str "", .list [.null, .bool true, .int (-7), .list [], .str "\x7b\x7bb\x7d\x7d\n"])]

theorem isJson_richData : IsJson richData := by
  have hnumber : ((Binary64.finite false 6755399441055744 (-52)).withPayload 0).Readable := by
    refine ⟨by decide, by decide, by decide, Or.inl (by decide)⟩
  have hfirst : ∀ v ∈ [Value.str "\"\"\"", .float (.finite false 6755399441055744 (-52)), .dict []], IsJson v := by
    simp only [List.forall_mem_cons]
    exact ⟨.str _, .float hnumber, .dict (by simp) List.Pairwise.nil (by simp), by simp⟩
  have hsecond : ∀ v ∈ [Value.null, .bool true, .int (-7), .list [], .str "\x7b\x7bb\x7d\x7d\n"], IsJson v := by
    simp only [List.forall_mem_cons]
    exact ⟨.null, .bool _, .int _, .list (by simp), .str _, by simp⟩
  refine .dict ?_ ?_ ?_
  · simp
  · simp
  · simp only [List.forall_mem_cons]
    exact ⟨.list hfirst, .list hsecond, by simp⟩

theorem not_hasLong_richData : ¬HasLong richData := by
  intro h
  exact absurd ((hurdles_isJson isJson_richData).2 h) (by decide +kernel)

/-- Neither the placeholders nor the quotes are touched. -/
theorem formatJson_dump_example :
    ∃ t, dump richData = .ok t ∧ formatJson t = .ok (letters t) ∧ (Guard.of t).placeholders = [] :=
  (formatJson_dump isJson_richData rfl).1 not_hasLong_richData

end Source.OpenApi

end HttpFile
