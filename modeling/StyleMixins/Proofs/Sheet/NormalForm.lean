import StyleMixins.Proofs.Sheet.Retrace

namespace StyleMixins.Sheet

open Element

variable {file : SourceText} {e : Element} {es : List Element}

/-- The printed text is a style sheet again, and the same one. -/
def ReadsBack (e : Element) : Prop :=
  ∃ e', parse ⟨inlineName, e.print⟩ = .ok e' ∧ e'.bare = e.bare

theorem shaped_of_parse (h : parse file = .ok e) :
    e.kind = .root ∧ ∀ x ∈ partsAll e.children, x.kind.Shaped x.children := by
  obtain ⟨es, rfl, ⟨rfl, -⟩ | hd⟩ := parse_cases h
  · exact ⟨rfl, by simp [Element.children]⟩
  · obtain ⟨last, hread, -⟩ := reading_of_document? hd
    exact ⟨rfl, hread.shaped⟩

theorem retraces_of_document? (h : document? file = some es) (hink : ink file.content.toList ≤ mass es) :
    ∃ last, Retraces file (Cursor.ofText file.content) es last := by
  obtain ⟨last, hread, hrest⟩ := reading_of_document? h
  have hkept : ink (Cursor.ofText file.content).rest ≤ mass es + ink last.rest := by
    rw [hrest, ink_nil]
    exact hink
  have hopens : Opens file last := by
    intro front after hlast
    simp [hrest] at hlast
  have hcovers := (covers_skip file (Cursor.ofText file.content)).trans hread.covers
  exact ⟨last, hread, hkept, hcovers.opens (by omega) hopens⟩

theorem legible_of_readsBack (hroot : e.kind = .root) (hshaped : ∀ x ∈ partsAll e.children, x.kind.Shaped x.children)
    (h : ReadsBack e) : (∀ x ∈ partsAll e.children, x.kind.Headed) ∧ Uncommented (texts e.children) := by
  obtain ⟨e', hparse, hbare⟩ := h
  obtain ⟨kind, source, children⟩ := e
  obtain rfl : kind = .root := hroot
  obtain ⟨found, rfl, hfound⟩ := parse_cases hparse
  have hsame : bareAll found = bareAll children := (Element.mk.inj hbare).2.2
  rcases hfound with ⟨rfl, -⟩ | hfound
  · obtain rfl := bareAll_eq_nil.mp hsame.symm
    exact ⟨by simp [Element.children], uncommented_of_not_opens (by simp [texts, Element.children])⟩
  · have htext := toList_print_root source children
    have hink : ink (Element.mk .root source children).print.toList ≤ mass found := by
      rw [htext, mass_eq_of_bareAll hsame, mass]
    obtain ⟨last, hretraces⟩ := retraces_of_document? hfound hink
    have hstart : (Cursor.ofText (Element.mk .root source children).print).rest =
        [] ++ (writeAll 0 children ++ []) := by
      rw [Cursor.ofText, htext, List.append_nil, List.nil_append]
    obtain ⟨hheaded, hclear, -⟩ := retraced _ children hshaped 0 [] [] _ found [] last hretraces (by simp) hstart
      (hsame.trans (List.append_nil _).symm)
    exact ⟨hheaded, (clearAll_nil_iff hshaped).mp hclear⟩

/-- What was read is printed and read again without a change exactly where every statement keeps its head and no text
opens a comment that is closed. -/
theorem readsBack_iff_of_parse (h : parse file = .ok e) :
    (ReadsBack e ↔ (∀ x ∈ partsAll e.children, x.kind.Headed) ∧ Uncommented (texts e.children)) ∧
      (ReadsBack e → ∃ e', parse ⟨inlineName, e.print⟩ = .ok e' ∧ e'.print = e.print) := by
  obtain ⟨hroot, hshaped⟩ := shaped_of_parse h
  refine ⟨⟨legible_of_readsBack hroot hshaped, ?_⟩, ?_⟩
  · rintro ⟨hheaded, hquiet⟩
    exact parse_print hroot (fun x hx => ⟨hshaped x hx, hheaded x hx⟩) hquiet rfl
  · rintro ⟨e', hparse, hbare⟩
    exact ⟨e', hparse, print_eq_of_bare_eq hbare⟩

/-- A value may look like the start of a comment as long as nothing closes it. -/
theorem readsBack_iff_of_parse_open : ∃ e, parse ⟨inlineName, "a /*\x7bb:/*;@c /*\x7d"⟩ = .ok e ∧ ReadsBack e := by
  have hread : (document? ⟨inlineName, "a /*\x7bb:/*;@c /*\x7d"⟩).map (fun es => (partsAll es).map Element.kind) =
      some [.rule "a /*", .declaration "b" "/*", .atRule "c" "/*" false] := by decide +kernel
  obtain ⟨es, hes, hkinds⟩ := Option.map_eq_some_iff.mp hread
  obtain ⟨source, hparse⟩ := parse_of_document? (by decide) hes
  refine ⟨_, hparse, (readsBack_iff_of_parse hparse).1.mpr ⟨?_, ?_⟩⟩
  · have hheaded : ∀ kind ∈ (partsAll es).map Element.kind, kind.Headed := by
      rw [hkinds]
      decide
    exact fun x hx => hheaded x.kind (List.mem_map_of_mem hx)
  · have htexts : texts es = ((partsAll es).map Element.kind).flatMap Kind.texts := by
      rw [texts, List.flatMap_map]
    change Uncommented (texts es)
    rw [htexts, hkinds]
    decide

/-- A blank that is no gap character is a selector; trimmed away, it leaves a rule without a head. -/
theorem exists_not_readsBack : ∃ e, parse ⟨inlineName, "\u00a0\x7b\x7d"⟩ = .ok e ∧ ¬ReadsBack e := by
  have hread : (document? ⟨inlineName, "\u00a0\x7b\x7d"⟩).map (writeAll 0) = some [' ', '{', '\n', '}', '\n'] := by
    decide +kernel
  have hfails : document? ⟨inlineName, " \x7b\n\x7d\n"⟩ = none := Option.isNone_iff_eq_none.mp (by decide +kernel)
  obtain ⟨es, hes, hprint⟩ := Option.map_eq_some_iff.mp hread
  obtain ⟨source, hparse⟩ := parse_of_document? (by decide) hes
  refine ⟨_, hparse, ?_⟩
  rintro ⟨e', he', -⟩
  have htext : (Element.mk .root source es).print = " \x7b\n\x7d\n" := by
    rw [← String.ofList_toList (s := (Element.mk .root source es).print), toList_print_root, hprint]
  rw [htext, parse_of_no_document (by decide) hfails] at he'
  simp at he'

end StyleMixins.Sheet
