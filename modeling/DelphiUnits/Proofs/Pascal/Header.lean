import DelphiUnits.Proofs.GeneratedFile.Draft
import DelphiUnits.Proofs.Pascal.Outline

/-!
# Headers

A generated file starts with the kind and the name of its unit. The name is the one that was asked
for: a unit is drafted under it, and nothing that a document registers changes its name.

## Main results

* `Pascal.render_header`: a text starts with the header of its unit;
* `generate_header`: the header of a generated file has the name that was asked for.
-/

namespace DelphiUnits

namespace Pascal

/-- A text starts with the header of its unit. -/
theorem render_header (indent : Indent) (u : CompilationUnit) :
    ∃ rest, render indent u = u.kind.keyword ++ " " ++ u.name ++ ";" ++ "\n" ++ rest := by
  have htext : render indent u = Layout.Line.renderAll indent (OutlineLine.lines (outline u)) :=
    (laysOut_unitScript u).run_text
  obtain ⟨rest, hrest⟩ : ∃ rest, outline u =
      [⟨.header, u.kind.keyword ++ " " ++ u.name ++ ";"⟩] ++ rest := ⟨_, rfl⟩
  refine ⟨Layout.Line.renderAll indent (OutlineLine.lines rest), ?_⟩
  have hheader : Layout.Line.renderAll indent (OutlineLine.lines
      [⟨.header, u.kind.keyword ++ " " ++ u.name ++ ";"⟩])
        = "" ++ (u.kind.keyword ++ " " ++ u.name ++ ";") ++ "\n" :=
    Layout.Line.renderAll_singleton _ _
  rw [htext, hrest, OutlineLine.lines_append, Layout.Line.renderAll_append, hheader,
    String.empty_append]

end Pascal

/-- A finished draft is one of a unit with the name that was asked for. -/
theorem name_draftUnit {settings : Settings} {request : Request} {document : Source.Document}
    (h : (draftUnit settings request document).2 = none) :
    (draftUnit settings request document).1.unit.name = request.name := by
  rw [draftUnit_eq h]
  exact (Pascal.Keeps.registerAll _ _).name

/-- **The header of a generated file** has the name that was asked for. -/
theorem generate_header {settings : Settings} {request : Request} {document : Source.Document}
    {g : GeneratedFile} (h : generate settings request document = .ok g) :
    ∃ rest, g.content = g.kind.keyword ++ " " ++ request.name ++ ";" ++ "\n" ++ rest := by
  obtain ⟨hfinished, rfl⟩ := generate_eq_ok_iff.mp h
  rw [← name_draftUnit hfinished]
  exact Pascal.render_header settings.indent (draftUnit settings request document).1.unit

end DelphiUnits
