import HttpFile.Proofs.Document.Calm
import HttpFile.Proofs.Document.Canonical

/-!
# `HttpFile.Proofs.Document.Preserved` — when formatting keeps the requests

Formatting a file should not change what the file asks for. With bodies left as they are, it always
gives a text, and this module says exactly when the exchanges read from that text are those of the
file: when every block is kept. A body that ends where it starts once it is trimmed, and a line that is
moved below a path that starts like inline code and closes it, are the two ways to lose one.

## Contents
- **Trimmed blocks.** `kept_plain_iff`: whether a block is kept is seen before its body is trimmed.
- **Formatted files.** `canonicalize_exchanges_iff`.
-/

namespace HttpFile

open Text Unicode Syntax

/-! ## Trimmed blocks -/

/-- A body that holds something is still there once it is trimmed. -/
theorem mem_body_plain {r : Request} (h : r.Extracted {}) {x : Text} (hx : x ∈ r.body) :
    strip x ∈ r.plain.body := by
  obtain ⟨c, hc, hsolid⟩ := (h.body x hx).1
  have hne : strip x ≠ [] := fun hnil => by
    rw [strip_eq_nil_iff.mp hnil c hc] at hsolid
    simp at hsolid
  have hbody : r.body = some x := hx
  simp [Request.plain, Request.written, hbody, hne]

theorem kept_plain_iff {b : Block} (h : b.Extracted {}) : b.plain.Kept ↔ b.Kept := by
  have hredirect : b.plain.responseRedirect = b.responseRedirect := redirect_settled h.responseRedirect
  have hkept : b.plain.RedirectKept ↔ b.RedirectKept := by
    unfold Block.RedirectKept
    rw [hredirect]
    rfl
  have hmetadata : b.plain.MetadataKept ↔ b.MetadataKept := Iff.rfl
  have hbody : (∀ r ∈ b.plain.request, ∀ w ∈ r.body, endsBody (strip w) = false) ↔
      ∀ r ∈ b.request, ∀ x ∈ r.body, endsBody (strip x) = false := by
    constructor
    · intro hall r hr x hx
      have hend := hall r.plain (Option.map_eq_some_iff.mpr ⟨r, hr, rfl⟩) _
        (mem_body_plain (h.request r hr) hx)
      rwa [trimmed_strip x] at hend
    · intro hall r' hr' w hw
      obtain ⟨r, hr, rfl⟩ := Option.map_eq_some_iff.mp hr'
      obtain ⟨x, hx, rfl⟩ := body_plain hw
      rw [trimmed_strip x]
      exact hall r hr x hx
  rw [Block.kept_iff, Block.kept_iff, hbody, hmetadata, hkept]

/-! ## Formatted files -/

theorem exchanges_plain {d : Document} (h : d.Extracted {}) : d.plain.exchanges = d.exchanges := by
  unfold Document.exchanges Document.plain
  rw [List.filterMap_map]
  exact List.filterMap_congr fun b hb => exchange?_plain (h.blocks b hb).2

/-- **When formatting keeps the requests.** A file that is read has a canonical text, its bodies left
    as they are. From that text the same exchanges are read, one for one and in order, exactly when
    every block of the file is kept: no body ends where it starts once it is trimmed, and what is moved
    below a path that starts like inline code does not close it, or does so at the end of a line of
    metadata. -/
theorem canonicalize_exchanges_iff {source t : Text} {d : Document}
    (h : Document.parse {} source t = .ok d) :
    ∃ c, canonicalize {} false source t = .ok c ∧
      ((∃ d', Document.parse {} source c = .ok d' ∧ d'.exchanges = d.exchanges) ↔
        ∀ b ∈ d.blocks, b.Kept) := by
  have hd := extracted_of_parse h
  have hw := settle_writable hd (settle_false d)
  have bodies : ∀ b ∈ d.blocks, ∀ r ∈ b.request, ∀ x ∈ r.body, Inert x ∧ '\r' ∉ x :=
    fun b hb r hr x hx => (((hd.blocks b hb).2.request r hr).body x hx).2
  have hinert := bodies_plain (P := fun w => endsBody w = false → Inert w)
    fun b hb r hr x hx => inert_strip (bodies b hb r hr x hx).1
  have hcarriage := bodies_plain (P := fun w => '\r' ∉ w)
    fun b hb r hr x hx hm => (bodies b hb r hr x hx).2 (mem_of_mem_strip hm)
  refine ⟨d.plain.text, canonicalize_eq_ok.mpr ⟨d, d.plain, h, settle_false d, rfl⟩, ?_⟩
  rw [parse_exchanges_iff, normalize_text hw hcarriage, ← exchanges_plain hd,
    exchangesIn_text_iff hw hinert (calmBlocks_of_parse h)]
  -- a block is kept exactly if it is as it is written
  constructor
  · intro hall b hb
    exact (kept_plain_iff (hd.blocks b hb).2).mp (hall b.plain (List.mem_map.mpr ⟨b, hb, rfl⟩))
  · intro hall b' hb'
    obtain ⟨b, hb, rfl⟩ := List.mem_map.mp hb'
    exact (kept_plain_iff (hd.blocks b hb).2).mpr (hall b hb)

/-- A file with a request that has a header, an indented body, a script and a redirect. -/
theorem canonicalize_exchanges_example :
    let t : Text := "POST h?a=1&b=2\nk : v \n\n  body\n> \x7b%x%\x7d\n>> out\n###"
    let d : Document := { blocks := [
      { request := some {
          method := "POST"
          url := "h\n  ?a=1\n  &b=2"
          headers := [⟨"k", "v"⟩]
          body := some "  body\n"
          bodyKind := some .raw }
        postRequestScripts := [.inline "x"]
        responseRedirect := some ">> out" }] }
    Document.parse {} [] t = .ok d ∧ ∃ c, canonicalize {} false [] t = .ok c ∧
      ((∃ d', Document.parse {} [] c = .ok d' ∧ d'.exchanges = d.exchanges) ↔
        ∀ b ∈ d.blocks, b.Kept) := by
  refine ⟨?read, canonicalize_exchanges_iff ?read⟩
  decide +kernel

/-- A body whose first line is an indented `###` is lost. -/
theorem canonicalize_exchanges_fails :
    let c : Text := "###\n\nGET a HTTP/1.1\n\n### x\n"
    canonicalize {} false [] "GET a\n\n ### x\n" = .ok c ∧
      (Document.parse {} [] "GET a\n\n ### x\n").toOption.map (·.exchanges.map (·.body)) =
        some [some ("### x" : Text)] ∧
      (Document.parse {} [] c).toOption.map (·.exchanges.map (·.body)) = some [none] := by
  decide +kernel

end HttpFile
